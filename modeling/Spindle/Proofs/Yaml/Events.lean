import Spindle.Proofs.Yaml.Layout
import Spindle.Yaml.Document

/-!
# Reading block mappings

The events of a mapping are those of its keys and values, one after the other.
-/

namespace Spindle.Yaml

/-! ## Events -/

namespace Content

def event (c : Content) : Event := .scalar ⟨String.ofList c.text, c.style, none⟩

def eventOf : Option Content → Event
  | none => Draft.emptyScalar none
  | some c => c.event

end Content

def Node.events : Node → List Event
  | scalar c => [Content.eventOf c]
  | sequence _ first more =>
    .sequenceStart :: ((first :: more).map Content.eventOf ++ [.sequenceEnd])
  | brackets members last =>
    .sequenceStart :: (members.map Content.event ++ ((last.map Content.event).toList ++
      [.sequenceEnd]))

def Pair.events (p : Pair) : List Event :=
  .scalar ⟨String.ofList p.key, .plain, none⟩ :: p.node.events

/-- The events of a pair whose key is written in some style. -/
def Pair.eventsIn (style : Style) (p : Pair) : List Event :=
  .scalar ⟨String.ofList p.key, style, none⟩ :: p.node.events

def Draft.addAll (d : Draft) (es : List Event) : Draft :=
  { d with events := es.reverse ++ d.events }

theorem Draft.addAll_append (d : Draft) (es es' : List Event) :
    (d.addAll es).addAll es' = d.addAll (es ++ es') := by
  simp [addAll]

/-- Whether what is due first takes in the first tokens, in at most three steps each, and gives
some events. -/
def Takes (dues : List Due) (ts : List Token) (es : List Event) (dues' : List Due)
    (ts' : List Token) : Prop :=
  ∃ n, n + 3 * ts'.length ≤ 3 * ts.length ∧
    ∀ (d : Draft) (fuel : Nat), d.run (fuel + n) dues ts = (d.addAll es).run fuel dues' ts'

namespace Takes

variable {dues dues' dues'' : List Due} {ts ts' ts'' : List Token} {es es' : List Event}

theorem trans (first : Takes dues ts es dues' ts') (second : Takes dues' ts' es' dues'' ts'') :
    Takes dues ts (es ++ es') dues'' ts'' := by
  obtain ⟨n, few, run⟩ := first
  obtain ⟨m, few', run'⟩ := second
  refine ⟨m + n, by omega, fun d fuel => ?_⟩
  rw [← Nat.add_assoc, run, run', Draft.addAll_append]

/-- One step that takes in a token. -/
theorem step {due : Due} {t : Token} (more : List Due)
    (steps : ∀ d, due.step d (t :: ts) = some (d.addAll es, more, ts)) :
    Takes (due :: dues) (t :: ts) es (more ++ dues) ts := by
  refine ⟨1, by rw [List.length_cons]; omega, fun d fuel => ?_⟩
  rw [Draft.run, steps]

/-- A step that takes in a token, and one at what is due then. -/
theorem step_then {due next : Due} {t : Token} (more more' : List Due)
    (steps : ∀ d, due.step d (t :: ts) = some (d, next :: more, ts'))
    (then' : ∀ d, next.step d ts' = some (d.addAll es, more', ts''))
    (fewer : ts''.length ≤ ts.length) :
    Takes (due :: dues) (t :: ts) es (more' ++ (more ++ dues)) ts'' := by
  refine ⟨2, by rw [List.length_cons]; omega, fun d fuel => ?_⟩
  rw [show fuel + 2 = fuel + 1 + 1 from rfl, Draft.run, steps]
  simp only [List.cons_append]
  rw [Draft.run, then']

end Takes

theorem Due.step_scalar (block indentless : Bool) (d : Draft) (c : Content) (ts : List Token) :
    (Due.node block indentless).step d (c.token :: ts) = some (d.addAll [c.event], [], ts) := rfl

/-- Where something may be left out before `t`. -/
theorem Takes.optional {due next : Due} {block indentless : Bool} {ends : List Token}
    {lead t : Token} {dues : List Due} {ts : List Token} (c : Option Content)
    (steps : ∀ d ts, due.step d (lead :: ts) = Due.optionalNode block indentless ends next d ts)
    (ends_t : t ∈ ends) (others : ∀ c : Content, c.token ∉ ends) :
    Takes (due :: dues) (lead :: (Content.tokens c ++ t :: ts)) [Content.eventOf c] (next :: dues)
      (t :: ts) := by
  cases c with
  | none =>
    refine .step [next] fun d => ?_
    rw [steps]
    simp [Content.tokens, Due.optionalNode, ends_t]
    rfl
  | some c =>
    refine .step_then [next] [] (fun d => ?_)
      (fun d => Due.step_scalar block indentless d c (t :: ts)) ?_
    · rw [steps]
      simp [Content.tokens, Due.optionalNode, others c]
    · simp [Content.tokens]

/-! ## Block sequences -/

/-- Over the items of a block sequence and to its end. -/
theorem Takes.items {dues : List Due} {ts : List Token} {due : Due} {t : Token}
    (ends : List Token)
    (steps : ∀ d ts, due.step d (.blockEntry :: ts) = Due.optionalNode true false ends due d ts)
    (entry : .blockEntry ∈ ends) (ends_t : t ∈ ends) (others : ∀ c : Content, c.token ∉ ends)
    (c : Option Content) (cs : List (Option Content)) :
    Takes (due :: dues)
      ((c :: cs).flatMap (fun c => .blockEntry :: Content.tokens c) ++ t :: ts)
      ((c :: cs).map Content.eventOf) (due :: dues) (t :: ts) := by
  induction cs generalizing c with
  | nil => simpa using Takes.optional c steps ends_t others
  | cons c' cs ih =>
    have later : Takes (due :: dues) (.blockEntry :: (Content.tokens c' ++
        (cs.flatMap (fun c => .blockEntry :: Content.tokens c) ++ t :: ts)))
        ((c' :: cs).map Content.eventOf) (due :: dues) (t :: ts) := by
      simpa using ih c'
    have both := (Takes.optional c steps entry others).trans later
    simpa using both

/-! ## Brackets -/

section Brackets

variable {dues : List Due} {ts : List Token}

theorem Takes.close (first : Bool) :
    Takes (.flowItem first :: dues) (.flowSequenceEnd :: ts) [.sequenceEnd] dues ts :=
  .step [] fun _ => rfl

/-- Over a comma and the scalar after it. -/
theorem Takes.member (c : Content) :
    Takes (.flowItem false :: dues) (.flowEntry :: c.token :: ts) [c.event]
      (.flowItem false :: dues) ts :=
  .step_then [.flowItem false] [] (fun _ => rfl) (fun d => Due.step_scalar false false d c ts)
    (by simp)

/-- Over the commas and the scalars after them, to the closing bracket. -/
theorem Takes.members (cs : List Content) (last : Option Content) :
    Takes (.flowItem false :: dues)
      (.flowEntry :: (cs.flatMap (fun c => [c.token, .flowEntry]) ++
        (Content.tokens last ++ .flowSequenceEnd :: ts)))
      (cs.map Content.event ++ ((last.map Content.event).toList ++ [.sequenceEnd])) dues ts := by
  induction cs with
  | nil =>
    cases last with
    | none =>
      -- A comma before the closing bracket is passed over together with it.
      refine ⟨1, ?_, fun d fuel => rfl⟩
      simp only [List.flatMap_nil, List.nil_append, Content.tokens, Option.map_none,
        Option.toList_none, List.length_cons]
      omega
    | some c => exact (Takes.member c).trans (.close false)
  | cons c cs ih => simpa using (Takes.member c).trans ih

/-- Over a sequence inside of brackets. -/
theorem Takes.brackets (cs : List Content) (last : Option Content) :
    Takes (.flowItem true :: dues)
      (cs.flatMap (fun c => [c.token, .flowEntry]) ++
        (Content.tokens last ++ .flowSequenceEnd :: ts))
      (cs.map Content.event ++ ((last.map Content.event).toList ++ [.sequenceEnd])) dues ts := by
  have first : ∀ (c : Content) (tail : List Token),
      Takes (.flowItem true :: dues) (c.token :: tail) [c.event] (.flowItem false :: dues)
        tail := by
    intro c tail
    refine ⟨2, by rw [List.length_cons]; omega, fun d fuel => rfl⟩
  cases cs with
  | nil =>
    cases last with
    | none => exact .close true
    | some c => exact (first c _).trans (.close false)
  | cons c cs => simpa using (first c _).trans (.members cs last)

end Brackets

/-! ## Mappings -/

section Mappings

variable {dues : List Due} {ts : List Token}

/-- Over a block sequence further in than its key. -/
theorem Takes.further (c : Option Content) (cs : List (Option Content)) :
    Takes (.blockValue :: dues) (.value :: ((Node.sequence false c cs).tokens ++ ts))
      (Node.sequence false c cs).events (.blockKey :: dues) ts := by
  generalize here : (c :: cs).flatMap (fun c => .blockEntry :: Content.tokens c) = items
  have opens : Takes (.blockValue :: dues) (.value :: .blockSequence :: (items ++ .blockEnd :: ts))
      [.sequenceStart] (.blockEntry :: .blockKey :: dues) (items ++ .blockEnd :: ts) :=
    .step_then [.blockKey] [.blockEntry] (fun d => rfl) (fun d => rfl) (by simp)
  have between : Takes (.blockEntry :: .blockKey :: dues) (items ++ .blockEnd :: ts)
      ((c :: cs).map Content.eventOf) (.blockEntry :: .blockKey :: dues) (.blockEnd :: ts) := by
    rw [← here]
    exact .items [.blockEntry, .blockEnd] (fun d ts => rfl) (by simp) (by simp)
      (by simp [Content.token]) c cs
  have closes : Takes (.blockEntry :: .blockKey :: dues) (.blockEnd :: ts) [.sequenceEnd]
      (.blockKey :: dues) ts := .step [] fun d => rfl
  simpa [Node.tokens, Node.events, here] using (opens.trans between).trans closes

/-- Over a block sequence in the column of its key. No token opens or closes it: its dashes do, and
the token after it. -/
theorem Takes.indentless {t : Token} (c : Option Content) (cs : List (Option Content))
    (ends : t = .key ∨ t = .blockEnd) :
    Takes (.blockValue :: dues) (.value :: ((Node.sequence true c cs).tokens ++ t :: ts))
      (Node.sequence true c cs).events (.blockKey :: dues) (t :: ts) := by
  generalize here : (c :: cs).flatMap (fun c => .blockEntry :: Content.tokens c) = items
  have tokens : (Node.sequence true c cs).tokens = items := by simp [Node.tokens, here]
  have between : Takes (.indentlessEntry :: .blockKey :: dues) (items ++ t :: ts)
      ((c :: cs).map Content.eventOf) (.indentlessEntry :: .blockKey :: dues) (t :: ts) := by
    rw [← here]
    refine .items [.blockEntry, .key, .value, .blockEnd] (fun d ts => rfl) (by simp) ?_
      (by simp [Content.token]) c cs
    rcases ends with rfl | rfl <;> simp
  obtain ⟨n, few, run⟩ := between
  have opens : ∀ (d : Draft) (fuel : Nat),
      d.run (fuel + 1 + 1) (.blockValue :: dues) (.value :: (items ++ t :: ts)) =
        (d.addAll [.sequenceStart]).run fuel (.indentlessEntry :: .blockKey :: dues)
          (items ++ t :: ts) := by
    intro d fuel
    obtain ⟨tail, first⟩ : ∃ tail, items = .blockEntry :: tail := ⟨_, here.symm⟩
    rw [first]
    rfl
  have closes : ∀ (d : Draft) (fuel : Nat),
      d.run (fuel + 1) (.indentlessEntry :: .blockKey :: dues) (t :: ts) =
        (d.addAll [.sequenceEnd]).run fuel (.blockKey :: dues) (t :: ts) := by
    intro d fuel
    rcases ends with rfl | rfl <;> rfl
  rw [tokens]
  refine ⟨1 + n + 1 + 1, ?_, fun d fuel => ?_⟩
  · simp only [List.length_cons] at few ⊢
    omega
  · rw [← Nat.add_assoc, ← Nat.add_assoc, ← Nat.add_assoc, opens, run, closes,
      Draft.addAll_append, Draft.addAll_append]
    simp [Node.events]

/-- Over a value, before the next key or the end of the mapping. -/
theorem Takes.value {t : Token} (node : Node) (ends : t = .key ∨ t = .blockEnd) :
    Takes (.blockValue :: dues) (.value :: (node.tokens ++ t :: ts)) node.events (.blockKey :: dues)
      (t :: ts) := by
  cases node with
  | scalar c =>
    refine .optional c (fun d ts => rfl) ?_ ?_
    · rcases ends with rfl | rfl <;> decide
    · intro c
      simp [Content.token]
  | sequence indentless c cs =>
    cases indentless with
    | false => exact .further c cs
    | true => exact .indentless c cs ends
  | brackets cs last =>
    have opens : Takes (.blockValue :: dues) (.value :: .flowSequence ::
        (cs.flatMap (fun c => [c.token, .flowEntry]) ++
          (Content.tokens last ++ .flowSequenceEnd :: t :: ts))) [.sequenceStart]
        (.flowItem true :: .blockKey :: dues) (cs.flatMap (fun c => [c.token, .flowEntry]) ++
          (Content.tokens last ++ .flowSequenceEnd :: t :: ts)) :=
      .step_then [.blockKey] [.flowItem true] (fun d => rfl) (fun d => rfl) (by simp)
    simpa [Node.tokens, Node.events] using opens.trans (.brackets cs last)

/-- Over a key and its value. -/
theorem Takes.pair {t : Token} (p : Pair) (ends : t = .key ∨ t = .blockEnd) :
    Takes (.blockKey :: dues) (p.tokens ++ t :: ts) p.events (.blockKey :: dues) (t :: ts) := by
  have key : Takes (.blockKey :: dues) (.key :: (Content.tokens (some ⟨p.key, .plain⟩) ++
      .value :: (p.node.tokens ++ t :: ts))) [Content.eventOf (some ⟨p.key, .plain⟩)]
      (.blockValue :: dues) (.value :: (p.node.tokens ++ t :: ts)) := by
    refine .optional _ (fun d ts => rfl) (by decide) ?_
    intro c
    simp [Content.token]
  exact key.trans (.value p.node ends)

theorem Takes.pairs (ps : List Pair) :
    Takes (.blockKey :: dues) (ps.flatMap Pair.tokens ++ .blockEnd :: ts) (ps.flatMap Pair.events)
      (.blockKey :: dues) (.blockEnd :: ts) := by
  induction ps with
  | nil => exact ⟨0, by simp, fun d fuel => rfl⟩
  | cons p ps ih =>
    cases ps with
    | nil => simpa using Takes.pair p (.inr rfl)
    | cons q qs =>
      have later : Takes (.blockKey :: dues) (.key :: ((.scalar q.key .plain :: .value ::
          q.node.tokens) ++ (qs.flatMap Pair.tokens ++ .blockEnd :: ts)))
          ((q :: qs).flatMap Pair.events) (.blockKey :: dues) (.blockEnd :: ts) := by
        simpa [Pair.tokens] using ih
      simpa [Pair.tokens] using (Takes.pair p (.inl rfl)).trans later

end Mappings

/-- A document whose tokens are taken in up to the end of the text. -/
theorem Document.ofTokens_of_takes {ts : List Token} {es : List Event}
    (takes : Takes [.node true false] ts es [] [.textEnd])
    (content : ofTokens ts = ofContent Directive.commonHandles false ts) :
    ofTokens ts = ⟨es, [], true⟩ := by
  obtain ⟨n, few, run⟩ := takes
  obtain ⟨fuel, enough⟩ : ∃ fuel, 8 * (ts.length + 1) = fuel + n :=
    ⟨8 * (ts.length + 1) - n, by omega⟩
  have done : ∀ (d : Draft) (ts : List Token), d.run fuel [] ts = (d, some ts) := by
    intro d ts
    cases fuel <;> rfl
  have whole : isLast [.textEnd] = true := by decide
  simp [content, ofContent, enough, run, done, whole, Draft.addAll]

end Spindle.Yaml
