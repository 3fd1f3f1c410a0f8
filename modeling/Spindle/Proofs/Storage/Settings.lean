import Mathlib.Data.List.ReduceOption
import Spindle.Error
import Spindle.Proofs.Yaml.Events
import Spindle.Proofs.Yaml.LongKeys
import Spindle.Proofs.Yaml.Numerals

/-!
# Settings as they are written

The settings that a block mapping writes replace their defaults, whatever the order of the keys,
what stands between them and how the values are laid out.
-/

namespace Spindle

namespace Config

/-- A field of the settings that is written. -/
inductive Setting where
  | minPartitionSize (n : UInt64)
  | nonStorageFstypes (ss : List String)
  | datastoreFstype (s : String)
  deriving DecidableEq, Repr

namespace Setting

def key : Setting → String
  | minPartitionSize _ => "min_partition_size"
  | nonStorageFstypes _ => "non_storage_fstypes"
  | datastoreFstype _ => "datastore_fstype"

/-- The settings with one field replaced. -/
def replace (c : Config) : Setting → Config
  | minPartitionSize n => { c with minPartitionSize := n }
  | nonStorageFstypes ss => { c with nonStorageFstypes := ss }
  | datastoreFstype s => { c with datastoreFstype := s }

end Setting

def keys : List String := ["min_partition_size", "non_storage_fstypes", "datastore_fstype"]

end Config

namespace Yaml

open Config (Setting)

/-! ## Values of the known keys -/

/-- Whether a scalar is quoted and stands for a text. -/
def ScalarText.Quotes (s : String) (t : ScalarText) : Prop :=
  ∃ single ws, t = .quoted single ws ∧ s = String.ofList ws.values.content

def Brackets.scalars (b : Brackets) : List ScalarText :=
  b.members.map Member.scalar ++ (b.last.map Placed.scalar).toList

/-- A number is not quoted and lies on one line; texts are quoted. -/
inductive ValueText.Writes : Setting → ValueText → Prop
  | number {before : Spacing} {n : Numeral} : n.Fits → n.value < UInt64.size →
      Writes (.minPartitionSize n.value.toUInt64)
        (.slot (some ⟨before, .plain (.last n.text)⟩))
  | text {s : String} {p : Placed} : p.scalar.Quotes s →
      Writes (.datastoreFstype s) (.slot (some p))
  | items {ss : List String} {k : Nat} {is : List Item} :
      List.Forall₂ (fun s (i : Item) => ∃ p ∈ i.slot, p.scalar.Quotes s) ss is →
        Writes (.nonStorageFstypes ss) (.items k is)
  | brackets {ss : List String} {b : Brackets} :
      List.Forall₂ ScalarText.Quotes ss b.scalars →
        Writes (.nonStorageFstypes ss) (.brackets b)

/-- What an entry writes: a known key with a value of its type, or another key with any value. -/
inductive Entry.Writes : Option Setting → Entry → Prop
  | known {s : Setting} {x : Entry} : String.ofList x.key = s.key → x.value.Writes s →
      Writes (some s) x
  | unknown {x : Entry} : String.ofList x.key ∉ Config.keys → Writes none x

end Yaml

/-! ## Reading -/

namespace Config.Draft

open Yaml (Document Event Path Pair Node Content)

def has (r : Draft) : Setting → Bool
  | .minPartitionSize _ => r.minPartitionSize.isSome
  | .nonStorageFstypes _ => r.nonStorageFstypes.isSome
  | .datastoreFstype _ => r.datastoreFstype.isSome

def set (r : Draft) : Setting → Draft
  | .minPartitionSize n => { r with minPartitionSize := some n }
  | .nonStorageFstypes ss => { r with nonStorageFstypes := some ss }
  | .datastoreFstype s => { r with datastoreFstype := some s }

/-- No field is written twice. -/
def put (r : Draft) (s : Setting) : Except Yaml.Error Draft :=
  if r.has s then .error (.duplicateField s.key) else .ok (r.set s)

theorem has_set (r : Draft) (s t : Setting) :
    (r.set s).has t = true ↔ t.key = s.key ∨ r.has t = true := by
  cases s <;> cases t <;> simp [set, has, Setting.key]

theorem complete_set (r : Draft) (s : Setting) : (r.set s).complete = s.replace r.complete := by
  cases s <;> rfl

theorem complete_foldl (ss : List Setting) (r : Draft) :
    (ss.foldl set r).complete = ss.foldl Setting.replace r.complete := by
  induction ss generalizing r with
  | nil => rfl
  | cons s ss ih => rw [List.foldl_cons, ih, complete_set, List.foldl_cons]

/-- Either no field is written again, or the first one that is makes an error. -/
theorem foldlM_put (ss : List Setting) (r : Draft) :
    ((∀ s ∈ ss, r.has s = false) ∧ (ss.map Setting.key).Nodup ∧
      ss.foldlM put r = .ok (ss.foldl set r)) ∨
    (¬ ((∀ s ∈ ss, r.has s = false) ∧ (ss.map Setting.key).Nodup) ∧
      ∃ s ∈ ss, ss.foldlM put r = .error (.duplicateField s.key)) := by
  induction ss generalizing r with
  | nil => exact .inl ⟨List.forall_mem_nil _, .nil, rfl⟩
  | cons s ss ih =>
    rw [List.foldlM_cons]
    by_cases has : r.has s = true
    · right
      refine ⟨fun fresh => ?_, s, by simp, by simp [put, has, bind, Except.bind]⟩
      simp [fresh.1 s (by simp)] at has
    · have put : r.put s = .ok (r.set s) := if_neg has
      rw [put]
      have before : ∀ t, (r.set s).has t = false ↔ t.key ≠ s.key ∧ r.has t = false := by
        intro t
        have either := has_set r s t
        cases added : (r.set s).has t <;> cases old : r.has t <;> simp_all
      rcases ih (r.set s) with ⟨fresh, once, all⟩ | ⟨again, t, mem, stops⟩
      · left
        refine ⟨?_, ?_, all⟩
        · intro t mem
          rcases List.mem_cons.mp mem with rfl | mem
          · simpa using has
          · exact ((before t).mp (fresh t mem)).2
        · refine List.nodup_cons.mpr ⟨fun mem => ?_, once⟩
          obtain ⟨t, mem, same⟩ := List.mem_map.mp mem
          exact ((before t).mp (fresh t mem)).1 same
      · right
        refine ⟨?_, t, by simp [mem], stops⟩
        rintro ⟨fresh, once⟩
        refine again ⟨fun t mem => ?_, (List.nodup_cons.mp once).2⟩
        refine (before t).mpr ⟨fun same => ?_, fresh t (by simp [mem])⟩
        exact (List.nodup_cons.mp once).1 (List.mem_map.mpr ⟨t, mem, same⟩)

/-- What a key and its value write when they are read. -/
def putAny (r : Draft) : Option Setting → Except Yaml.Error Draft
  | none => .ok r
  | some s => r.put s

/-- Whether reading a key and its value writes a setting, or nothing. -/
def Reads (p : Pair) (w : Option Setting) : Prop :=
  ∀ (d : Document) (r : Draft) (rest : List Event),
    readValue d r ⟨some (String.ofList p.key), none⟩ (String.ofList p.key) (p.node.events ++ rest) =
      (r.putAny w).map fun r => (r, rest)

theorem readMembers_pairs {ps : List Pair} {ws : List (Option Setting)} (style : Yaml.Style)
    (reads : List.Forall₂ Reads ps ws) (d : Document) (r : Draft) :
    readMembers d r (ps.flatMap (Pair.eventsIn style) ++ [.mappingEnd]) =
      ws.reduceOption.foldlM put r := by
  induction reads generalizing r with
  | nil =>
    simp [readMembers]
    rfl
  | @cons p w ps ws reads all ih =>
    have key : ((p :: ps).flatMap (Pair.eventsIn style) ++ [.mappingEnd] : List Event) =
        .scalar ⟨String.ofList p.key, style, none⟩ ::
          (p.node.events ++ (ps.flatMap (Pair.eventsIn style) ++ [.mappingEnd])) := by
      simp [Pair.eventsIn]
    rw [key, readMembers]
    · simp only [Yaml.readText, Document.resolve, reads d r]
      cases w with
      | none => simp [putAny, Except.map, ih]
      | some s =>
        cases added : r.put s with
        | error e => simp [putAny, added, Except.map, bind, Except.bind]
        | ok r' => simp [putAny, added, Except.map, bind, Except.bind, ih]
    · simp

end Config.Draft

/-! ## What is written is read -/

namespace Yaml

open Config (Setting)

theorem skipNode_events (p : Node) (rest : List Event) :
    skipNode 0 (p.events ++ rest) = some rest := by
  have items : ∀ cs : List (Option Content), skipNode 1 (cs.map Content.eventOf ++
      .sequenceEnd :: rest) = some rest := by
    intro cs
    induction cs with
    | nil => rfl
    | cons c cs ih =>
      have step : skipNode 1 (Content.eventOf c :: (cs.map Content.eventOf ++
          .sequenceEnd :: rest)) = skipNode 1 (cs.map Content.eventOf ++ .sequenceEnd :: rest) := by
        cases c <;> rfl
      exact step.trans ih
  cases p with
  | scalar c => cases c <;> rfl
  | sequence indentless c cs => simpa [Node.events, skipNode] using items (c :: cs)
  | brackets cs last =>
    have same : cs.map Content.event ++ (last.map Content.event).toList =
        (cs.map some ++ last.toList.map some).map Content.eventOf := by
      cases last <;> simp [Content.eventOf, Function.comp_def]
    have all := items (cs.map some ++ last.toList.map some)
    rw [← same] at all
    simpa [Node.events, skipNode] using all

/-- The text that a scalar stands for. -/
def Content.string (c : Content) : String := String.ofList c.text

theorem readItems_events (d : Document) (path : Path) (cs : List Content) (i : Nat)
    (rest : List Event) :
    readItems d path i (cs.map Content.event ++ .sequenceEnd :: rest) =
      .ok (cs.map Content.string, rest) := by
  induction cs generalizing i with
  | nil => rfl
  | cons c cs ih => simp [readItems, Content.event, readText, Document.resolve, ih, Content.string]

theorem readList_events (d : Document) (path : Path) (cs : List Content) (rest : List Event) :
    readList d path (.sequenceStart :: (cs.map Content.event ++ .sequenceEnd :: rest)) =
      .ok (cs.map Content.string, rest) := by
  simp [readList, readSequence, readItems_events]

theorem ScalarText.Quotes.means {s : String} {t : ScalarText} {c : Content} (quotes : t.Quotes s)
    (means : t.Means c) : c.string = s := by
  obtain ⟨single, ws, rfl, rfl⟩ := quotes
  rw [show c = _ from means]
  rfl

theorem ScalarText.strings {ss : List String} {ts : List ScalarText} {cs : List Content}
    (quotes : List.Forall₂ Quotes ss ts) (means : List.Forall₂ Means cs ts) :
    cs.map Content.string = ss := by
  induction quotes generalizing cs with
  | nil =>
    cases means
    rfl
  | cons quotes _ ih =>
    cases means with
    | cons means all => rw [List.map_cons, quotes.means means, ih all]

theorem Item.strings {ss : List String} {is : List Item} {cs : List (Option Content)}
    (quotes : List.Forall₂ (fun s (i : Item) => ∃ p ∈ i.slot, p.scalar.Quotes s) ss is)
    (means : List.Forall₂ (fun c (i : Item) => i.slot.Means c) cs is) :
    ∃ cs' : List Content, cs = cs'.map some ∧ cs'.map Content.string = ss := by
  induction quotes generalizing cs with
  | nil =>
    cases means
    exact ⟨[], rfl, rfl⟩
  | @cons s i ss is quotes _ ih =>
    obtain ⟨p, slot, quotes⟩ := quotes
    cases means with
    | @cons c _ cs _ means all =>
      obtain ⟨cs', rfl, strings⟩ := ih all
      rw [slot] at means
      cases means with
      | @scalar c' _ means =>
        exact ⟨c' :: cs', rfl, by rw [List.map_cons, quotes.means means, strings]⟩

theorem Brackets.means_scalars {b : Brackets} {cs : List Content} {last : Option Content}
    (members : List.Forall₂ (fun c (i : Member) => i.scalar.Means c) cs b.members)
    (means : b.last.Means last) : List.Forall₂ ScalarText.Means (cs ++ last.toList) b.scalars := by
  refine List.rel_append ?_ ?_
  · exact List.forall₂_map_right_iff.mpr members
  · cases slot : b.last with
    | none =>
      rw [slot] at means
      cases means
      exact .nil
    | some p =>
      rw [slot] at means
      cases means with
      | scalar means => exact .cons means .nil

/-- The event of a value that writes a number. -/
theorem ValueText.Writes.word {n : Nat} {m : UInt64} {v : ValueText} {node : Node}
    (writes : v.Writes (.minPartitionSize m)) (means : v.Means n node) :
    ∃ s : Scalar, s.word? = some m ∧ node.events = [.scalar s] := by
  cases writes with
  | @number before numeral fits small =>
    cases means with
    | slot means =>
      cases means with
      | @scalar c _ means =>
        obtain rfl : c = ⟨numeral.text, .plain⟩ := means
        exact ⟨_, Scalar.word?_numeral fits small none, rfl⟩

/-- The event of a value that writes a text. -/
theorem ValueText.Writes.string {n : Nat} {s : String} {v : ValueText} {node : Node}
    (writes : v.Writes (.datastoreFstype s)) (means : v.Means n node) :
    ∃ c : Content, c.string = s ∧ node.events = [c.event] := by
  cases writes with
  | text quotes =>
    cases means with
    | slot means =>
      cases means with
      | @scalar c _ means => exact ⟨c, quotes.means means, rfl⟩

/-- The events of a value that writes texts. -/
theorem ValueText.Writes.texts {n : Nat} {ss : List String} {v : ValueText} {node : Node}
    (writes : v.Writes (.nonStorageFstypes ss)) (means : v.Means n node) :
    ∃ cs : List Content, cs.map Content.string = ss ∧
      node.events = .sequenceStart :: (cs.map Content.event ++ [.sequenceEnd]) := by
  cases writes with
  | items writes =>
    cases means with
    | items means =>
      obtain ⟨cs, same, strings⟩ := Item.strings writes means
      refine ⟨cs, strings, ?_⟩
      rw [Node.events, same, List.map_map]
      rfl
  | brackets writes =>
    cases means with
    | @brackets cs last b members means =>
      refine ⟨cs ++ last.toList,
        ScalarText.strings writes (Brackets.means_scalars members means), ?_⟩
      cases last <;> simp [Node.events]

/-- The pair of an unknown key writes nothing. -/
theorem Pair.reads_unknown {p : Pair} (other : String.ofList p.key ∉ Config.keys) :
    Config.Draft.Reads p none := by
  intro d r rest
  simp only [Config.keys, List.mem_cons, List.not_mem_nil, or_false, not_or] at other
  simp [Config.Draft.readValue, other, skipNode_events, Config.Draft.putAny, Except.map]

/-- The pair of a known key writes the setting of its value. -/
theorem ValueText.Writes.reads {n : Nat} {s : Setting} {p : Pair} {v : ValueText}
    (writes : v.Writes s) (key : String.ofList p.key = s.key) (means : v.Means n p.node) :
    Config.Draft.Reads p (some s) := by
  intro d r rest
  rw [key]
  cases s with
  | minPartitionSize m =>
    obtain ⟨s, word, events⟩ := writes.word means
    rw [events]
    cases taken : r.minPartitionSize <;>
      simp [Config.Draft.readValue, Setting.key, readWord, Document.resolve, word, taken,
        Config.Draft.putAny, Config.Draft.put, Config.Draft.has, Config.Draft.set, Except.map]
  | nonStorageFstypes ss =>
    obtain ⟨cs, rfl, events⟩ := writes.texts means
    rw [events]
    cases taken : r.nonStorageFstypes <;>
      simp [Config.Draft.readValue, Setting.key, readList_events, taken, Config.Draft.putAny,
        Config.Draft.put, Config.Draft.has, Config.Draft.set, Except.map]
  | datastoreFstype s =>
    obtain ⟨c, rfl, events⟩ := writes.string means
    rw [events]
    cases taken : r.datastoreFstype <;>
      simp [Config.Draft.readValue, Setting.key, readText, Content.event, Content.string,
        Document.resolve, taken, Config.Draft.putAny, Config.Draft.put, Config.Draft.has,
        Config.Draft.set, Except.map]

/-- What an entry writes is what its key and its value are read as. -/
theorem Entry.Writes.reads {n : Nat} {w : Option Setting} {p : Pair} {x : Entry}
    (writes : Entry.Writes w x) (means : Entry.Means n p x) : Config.Draft.Reads p w := by
  obtain ⟨key, means⟩ := means
  cases writes with
  | unknown other => exact Pair.reads_unknown (key ▸ other)
  | known same writes => exact writes.reads ((congrArg String.ofList key).trans same) means

/-- Entries of any kind are read one by one. -/
theorem reads_all {α : Type} {Writes : Option Setting → α → Prop} {Means : Pair → α → Prop}
    {ws : List (Option Setting)} {ps : List Pair} {xs : List α}
    (writes : List.Forall₂ Writes ws xs) (means : List.Forall₂ Means ps xs)
    (reads : ∀ {w p x}, Writes w x → Means p x → Config.Draft.Reads p w) :
    List.Forall₂ Config.Draft.Reads ps ws := by
  induction writes generalizing ps with
  | nil =>
    cases means
    exact .nil
  | cons writes _ ih =>
    cases means with
    | cons means all => exact .cons (reads writes means) (ih all)

end Yaml

/-! ## Settings of a text -/

namespace Config

open Yaml (AreBlanks Document Entry IsComment IsIdentifier IsWord Item MappingText Pair Piece
  ScalarText Slot Spacing StartsPlain ValueText Words isBreak isSeparator)

/-- What is left of the defaults when some settings are written. -/
def written (ss : List Setting) : Config := ss.foldl Setting.replace default

/-- Whether a text is read as some settings: they replace their defaults, and the result is
validated; a field that is set twice is an error. -/
def ReadAs (text : String) (ss : List Setting) : Prop :=
  ((ss.map Setting.key).Nodup →
    ofText text =
      if (written ss).minPartitionSize = 0 then .error (.configuration .zeroMinPartitionSize)
      else if Text.isAllBlank (written ss).datastoreFstype then
        .error (.configuration .blankDatastoreFstype)
      else .ok (written ss)) ∧
  (¬ (ss.map Setting.key).Nodup →
    ∃ s ∈ ss, ofText text = .error (.configParse (.duplicateField s.key)))

/-- What some pairs write is what a text is read as whose document has them. -/
theorem readAs_of_document {text : String} {ws : List (Option Setting)}
    (document : ofDocument (.ofText text) =
      (ws.reduceOption.foldlM Draft.put ⟨none, none, none⟩).map (·.complete)) :
    ReadAs text ws.reduceOption := by
  unfold ReadAs ofText
  rw [document]
  rcases Draft.foldlM_put ws.reduceOption ⟨none, none, none⟩ with
    ⟨-, once, all⟩ | ⟨again, s, mem, stops⟩
  · rw [all]
    refine ⟨fun _ => ?_, fun again => absurd once again⟩
    have complete : (ws.reduceOption.foldl Draft.set ⟨none, none, none⟩).complete =
        written ws.reduceOption := Draft.complete_foldl _ _
    simp only [Except.map, complete, validate]
    by_cases zero : (written ws.reduceOption).minPartitionSize = 0
    · simp [zero]
    · by_cases blank : Text.isAllBlank (written ws.reduceOption).datastoreFstype = true
      · simp [zero, blank]
      · simp [zero, blank]
  · rw [stops]
    refine ⟨fun once => absurd ⟨?_, once⟩ again, fun _ => ⟨s, mem, rfl⟩⟩
    intro t _
    cases t <;> rfl

/-- A mapping of one key to a number. -/
def single (key : List Char) : MappingText where
  column := 0
  entries := [
    { before := .blanks []
      key
      blanks := []
      value := .slot (some ⟨.blanks [' '], .plain (.last ['1'])⟩) }]
  ending := .line ⟨[], [], .lineFeed⟩ (.blanks [])
  comment := []

end Config

end Spindle
