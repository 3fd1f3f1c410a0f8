import Spindle.Proofs.Yaml.Spacing

/-!
# Spots

What the tokens after a place depend on, without the starts of keys that come to nothing. A scan
goes from spot to spot, one token at a time.
-/

namespace Spindle.Yaml

structure Spot where
  rest : List Char
  column : Nat
  tokens : List Token
  indent : Int
  outers : List Int
  keyAllowed : Bool
  /-- How many brackets are open. -/
  depth : Nat

namespace Spot

/-- Whether tabs are passed over at the spot. -/
def tabs (a : Spot) : Bool := a.depth ≠ 0 || !a.keyAllowed

/-- The spot after some spacing. -/
def past (a : Spot) (sp : Spacing) (rest : List Char) : Spot :=
  { a with
    rest, column := sp.column a.column, keyAllowed := a.keyAllowed || sp.broken && a.depth = 0 }

/-- The blocks further in than a column, closed: the innermost one that is left, those around it
and the tokens. -/
def closing (column : Int) (indent : Int) (tokens : List Token) :
    List Int → Int × List Int × List Token
  | [] => (indent, [], tokens)
  | outer :: outers =>
    if column < indent then closing column outer (tokens ++ [.blockEnd]) outers
    else (indent, outer :: outers, tokens)

/-- What is left of the blocks at a spot. Brackets close no blocks. -/
def left (column : Int) (a : Spot) : Int × List Int × List Token :=
  if a.depth = 0 then closing column a.indent a.tokens a.outers else (a.indent, a.outers, a.tokens)

/-- The spot with the blocks closed that are further in than a column. -/
def closed (column : Int) (a : Spot) : Spot :=
  { a with
    indent := (a.left column).1
    outers := (a.left column).2.1
    tokens := (a.left column).2.2 }

theorem closing_closing {column outer : Int} (le : column ≤ outer) (indent : Int)
    (tokens : List Token) (outers : List Int) :
    closing column (closing outer indent tokens outers).1 (closing outer indent tokens outers).2.2
      (closing outer indent tokens outers).2.1 = closing column indent tokens outers := by
  induction outers generalizing indent tokens with
  | nil => rfl
  | cons next outers ih =>
    by_cases further : outer < indent
    · have further' : column < indent := by omega
      simp only [closing, if_pos further, if_pos further']
      exact ih next _
    · simp only [closing, if_neg further]

/-- Blocks that are closed on the way out are closed in the end. -/
theorem closed_closed {column outer : Int} (le : column ≤ outer) (a : Spot) :
    (a.closed outer).closed column = a.closed column := by
  have same : (a.closed outer).left column = a.left column := by
    by_cases block : a.depth = 0
    · simp only [left, closed, if_pos block]
      exact closing_closing le _ _ _
    · simp only [left, closed, if_neg block]
  rw [closed, same]
  rfl

/-- Nothing is closed inside of the innermost block. -/
theorem closed_eq {a : Spot} {column : Int} (inside : a.depth = 0 → a.indent ≤ column) :
    a.closed column = a := by
  have left : a.left column = (a.indent, a.outers, a.tokens) := by
    unfold Spot.left
    by_cases block : a.depth = 0
    · rw [if_pos block]
      cases a.outers with
      | nil => rfl
      | cons outer outers =>
        have := inside block
        rw [closing, if_neg (by omega)]
    · rw [if_neg block]
  rw [closed, left]

end Spot

namespace Scan

variable {s t u : Scan} {a b : Spot} {sp : Spacing} {rest comment : List Char}

/-- Whether a scan is at a spot; no key has to follow there. -/
structure Is (s : Scan) (a : Spot) : Prop where
  rest : s.place.rest = a.rest
  column : s.place.column = a.column
  whole : s.whole = true
  tokens : s.tokens = a.tokens
  indent : s.indent = a.indent
  outers : s.outerIndents = a.outers
  allowed : s.keyAllowed = a.keyAllowed
  depth : s.outerStarts.length = a.depth
  free : ∀ k, some k ∈ s.keyStart :: s.outerStarts → k.required = false

/-- Whether a scan goes on as from a spot, after spacing that may stand there. -/
def Stands (s : Scan) (a : Spot) : Prop := ∃ t : Scan, t.Is a ∧ s.skipToToken = t.skipToToken

theorem Is.stands (is : s.Is a) : s.Stands a := ⟨s, is, rfl⟩

theorem Is.inFlow (is : s.Is a) : s.inFlow = decide (a.depth ≠ 0) := by
  rw [Scan.inFlow, ← is.depth]
  cases s.outerStarts <;> simp

theorem Is.tabs (is : s.Is a) : s.tabs = a.tabs := by
  rw [Scan.tabs, Spot.tabs, is.inFlow, is.allowed]

/-! ### Starts of keys -/

/-- Other starts of keys; spacing does not depend on them. -/
def withKeys (s : Scan) (keyStart : Option KeyStart) (outerStarts : List (Option KeyStart)) :
    Scan := { s with keyStart, outerStarts }

theorem inFlow_withKeys {k : Option KeyStart} {ks : List (Option KeyStart)}
    (same : ks.length = s.outerStarts.length) : (s.withKeys k ks).inFlow = s.inFlow := by
  unfold Scan.inFlow withKeys
  cases ks <;> cases h : s.outerStarts <;> simp_all

theorem skipToToken_withKeys (k : Option KeyStart) (ks : List (Option KeyStart)) (s : Scan)
    (same : ks.length = s.outerStarts.length) :
    (s.withKeys k ks).skipToToken = s.skipToToken.withKeys k ks := by
  have lead : ∀ s : Scan, ks.length = s.outerStarts.length → (s.withKeys k ks).lead = s.lead := by
    intro s same
    unfold Scan.lead Scan.tabs
    rw [inFlow_withKeys same]
    rfl
  induction s using skipToToken_rec with
  | line s ends ih =>
    have next : ∀ place, (s.withKeys k ks).nextLine place = (s.nextLine place).withKeys k ks := by
      intro place
      unfold nextLine
      rw [inFlow_withKeys same]
      rfl
    rw [skipToToken_eq, skipToToken_eq s, lead s same, if_pos ends, if_pos ends, next]
    exact ih same
  | stop s stays =>
    rw [skipToToken_eq, skipToToken_eq s, lead s same, if_neg stays, if_neg stays]
    rfl

def moved (s : Scan) (place : Cursor) (keyAllowed : Bool) : Scan := { s with place, keyAllowed }

/-- Spacing changes nothing but the place and whether a key may start. -/
theorem skipToToken_form (s : Scan) :
    ∃ place keyAllowed, s.skipToToken = s.moved place keyAllowed := by
  induction s using skipToToken_rec with
  | line s ends ih =>
    obtain ⟨place, keyAllowed, form⟩ := ih
    refine ⟨place, keyAllowed, ?_⟩
    rw [skipToToken_eq, if_pos ends, form]
    rfl
  | stop s stays =>
    refine ⟨s.lead, s.keyAllowed, ?_⟩
    rw [skipToToken_eq, if_neg stays]
    rfl

/-- Where no key has to follow, none is missed. -/
theorem dropStale_eq (free : ∀ k, some k ∈ s.keyStart :: s.outerStarts → k.required = false) :
    ∃ k ks, s.dropStale = some (s.withKeys k ks) ∧ ks.length = s.outerStarts.length ∧
      ∀ k', some k' ∈ k :: ks → k'.required = false := by
  have none : ((s.keyStart :: s.outerStarts).any
      (·.any fun k => isStale s.place k && k.required)) = false := by
    rw [List.any_eq_false]
    intro k mem
    cases k with
    | none => simp
    | some k => simp [free k mem]
  refine ⟨s.keyStart.filter (!isStale s.place ·),
    s.outerStarts.map (·.filter (!isStale s.place ·)), ?_, by simp, ?_⟩
  · rw [dropStale, none]
    rfl
  · intro k mem
    apply free
    have kept : some k ∈ (s.keyStart :: s.outerStarts).map (·.filter (!isStale s.place ·)) := mem
    obtain ⟨k', mem', same⟩ := List.mem_map.mp kept
    rw [Option.filter_eq_some_iff] at same
    rw [same.1] at mem'
    exact mem'

theorem Is.withKeys (is : s.Is a) {k : Option KeyStart} {ks : List (Option KeyStart)}
    (same : ks.length = s.outerStarts.length)
    (free : ∀ k', some k' ∈ k :: ks → k'.required = false) : (s.withKeys k ks).Is a :=
  { is with depth := same.trans is.depth, free }

/-- A scan that stands at a spot is at it but for its place. -/
theorem Stands.moved (stands : s.Stands a) :
    ∃ place keyAllowed, (s.moved place keyAllowed).Is a ∧
      s.skipToToken = (s.moved place keyAllowed).skipToToken := by
  obtain ⟨t, is, same⟩ := stands
  obtain ⟨p, k, form⟩ := skipToToken_form s
  obtain ⟨p', k', form'⟩ := skipToToken_form t
  have here : s.moved t.place t.keyAllowed = t := by
    rw [form, form'] at same
    cases s
    cases t
    simp_all [Scan.moved]
  refine ⟨t.place, t.keyAllowed, ?_⟩
  rw [here]
  exact ⟨is, same⟩

theorem Stands.dropStale (stands : s.Stands a) :
    ∃ t, s.dropStale = some t ∧ t.Stands a ∧ t.place = s.place := by
  obtain ⟨place, keyAllowed, is, same⟩ := stands.moved
  obtain ⟨k, ks, drops, length, free⟩ := dropStale_eq (s := s) is.free
  refine ⟨s.withKeys k ks, drops, ⟨_, is.withKeys length free, ?_⟩, rfl⟩
  have other : ks.length = (s.moved place keyAllowed).outerStarts.length := length
  rw [skipToToken_withKeys k ks s length, skipToToken_withKeys k ks _ other, same]

theorem Stands.tokens (stands : s.Stands a) : s.tokens = a.tokens := by
  obtain ⟨place, keyAllowed, is, -⟩ := stands.moved
  exact is.tokens

theorem Stands.whole (stands : s.Stands a) : s.whole = true := by
  obtain ⟨place, keyAllowed, is, -⟩ := stands.moved
  exact is.whole

/-- After spacing a scan is where the next token starts, or at the end of the text. -/
theorem Stands.skips (stands : s.Stands a) (split : a.rest = sp.text ++ (comment ++ rest))
    (fits : sp.Fits a.tabs) (isComment : IsComment comment) (starts : StartsToken rest)
    (ends : rest = [] ∨ comment = []) :
    ∃ t column, s.skipToToken.dropStale = some t ∧ t.Is { a.past sp rest with column } ∧
      (comment = [] → column = (a.past sp rest).column) := by
  obtain ⟨t, is, same⟩ := stands
  have fits : sp.Fits t.tabs := is.tabs ▸ fits
  have moved := skipToToken_spacing (is.rest.trans split) fits
  obtain ⟨left, column⟩ := Spacing.after_form (is.rest.trans split)
  generalize sp.after t.place = place at moved left column
  have stops := skipToToken_stop (s := t.moved place (t.keyAllowed || sp.broken && !t.inFlow))
    left isComment starts ends
  have flow : (!t.inFlow) = decide (a.depth = 0) := by
    rw [is.inFlow]
    simp
  have is' : (t.moved (place.advance comment.length)
      (t.keyAllowed || sp.broken && !t.inFlow)).Is
      { a.past sp rest with column := sp.column a.column + comment.length } :=
    { is with
      rest := Cursor.rest_advance left
      column := by
        rw [← is.column, ← column]
        rfl
      allowed := by
        change (t.keyAllowed || sp.broken && !t.inFlow) = (a.keyAllowed || sp.broken && _)
        rw [flow, is.allowed] }
  obtain ⟨k, ks, drops, length, free⟩ := dropStale_eq is'.free
  refine ⟨_, _, ?_, is'.withKeys length free, ?_⟩
  · rw [same, moved]
    exact (congrArg Scan.dropStale stops).trans drops
  · rintro rfl
    rfl

/-! ### Blocks -/

theorem closeBlocks_go (s : Scan) (column indent : Int) (tokens : List Token) (outers : List Int) :
    closeBlocks.go s column indent outers tokens =
      { s with
        indent := (Spot.closing column indent tokens outers).1
        outerIndents := (Spot.closing column indent tokens outers).2.1
        tokens := (Spot.closing column indent tokens outers).2.2 } := by
  induction outers generalizing indent tokens with
  | nil => rfl
  | cons outer outers ih =>
    unfold closeBlocks.go Spot.closing
    split
    · exact ih outer (tokens ++ [.blockEnd])
    · rfl

theorem Is.closeBlocks (is : s.Is a) (column : Int) :
    (s.closeBlocks column).Is (a.closed column) := by
  unfold Scan.closeBlocks Spot.closed Spot.left
  rw [is.inFlow]
  by_cases block : a.depth = 0
  · rw [if_neg (by simp [block]), if_pos block, closeBlocks_go, is.indent, is.outers, is.tokens]
    exact { is with indent := rfl, outers := rfl, tokens := rfl }
  · rw [if_pos (by simp [block]), if_neg block]
    exact is

/-! ### One token -/

theorem isCut_of_whole (whole : s.whole = true) (n : Nat) : s.isCut n = false := by
  simp [isCut, whole]

theorem length_skipToToken_le (s : Scan) :
    s.skipToToken.place.rest.length ≤ s.place.rest.length := by
  induction s using skipToToken_rec with
  | line s ends ih =>
    have shorter := length_readBreak_lead_lt ends
    rw [skipToToken_eq, if_pos ends]
    exact Nat.le_trans ih (Nat.le_of_lt shorter)
  | stop s stays =>
    rw [skipToToken_eq, if_neg stays]
    exact s.length_lead_le

theorem place_dropStale (drops : s.dropStale = some t) : t.place = s.place := by
  unfold dropStale at drops
  split at drops
  · cases drops
  · cases drops
    rfl

/-- A step from where a token starts. -/
theorem step_here (starts : StartsToken s.place.rest) (drops : s.dropStale = some t)
    (whole : t.whole = true) (inside : t.closeBlocks t.place.column = t) :
    s.step = match t.readToken with
      | none => none
      | some u => if u.isCut 1 then none else u.dropStale := by
  rw [step, skipToToken_here starts, drops]
  simp only [isCut_of_whole whole, inside]
  rfl

/-- A token that is read where the scan is. -/
theorem Is.of_token {v : Scan} (is : v.Is b) (reads : t.readToken = some v)
    (starts : StartsToken s.place.rest) (drops : s.dropStale = some t) (whole : t.whole = true)
    (inside : t.closeBlocks t.place.column = t) :
    ∃ u, s.step = some u ∧ u.Stands b ∧ u.place = v.place := by
  obtain ⟨u, dropped, stands, place⟩ := is.stands.dropStale
  refine ⟨u, ?_, stands, place⟩
  rw [step_here starts drops whole inside, reads]
  simp only [isCut_of_whole is.whole]
  exact dropped

/-- A token that starts after spacing: the scan goes on after it. -/
theorem Stands.step_of {goal : Scan → Prop} (stands : s.Stands a) (split : a.rest = sp.text ++ rest)
    (fits : sp.Fits a.tabs) (starts : StartsToken rest)
    (reads : ∀ t : Scan, t.Is ((a.past sp rest).closed (a.past sp rest).column) →
      ∃ u v, t.readToken = some u ∧ u.whole = true ∧ u.dropStale = some v ∧ goal v ∧
        v.place.rest.length < rest.length) :
    ∃ v, s.step = some v ∧ goal v ∧ v.place.rest.length < s.place.rest.length := by
  have split : a.rest = sp.text ++ ([] ++ rest) := split
  obtain ⟨t, column, drops, is, same⟩ := stands.skips split fits (.inl rfl) starts (.inr rfl)
  rw [same rfl] at is
  have atToken : (t.closeBlocks t.place.column).Is
      ((a.past sp rest).closed (a.past sp rest).column) := by
    rw [is.column]
    exact is.closeBlocks _
  obtain ⟨u, v, read, whole, dropped, reached, shorter⟩ := reads _ atToken
  have before := length_skipToToken_le s
  rw [← place_dropStale drops, is.rest] at before
  refine ⟨v, ?_, reached, Nat.lt_of_lt_of_le shorter before⟩
  rw [Scan.step, drops]
  simp only [isCut_of_whole is.whole, isCut_of_whole whole, read, dropped]
  rfl

theorem dropKey_eq (free : ∀ k, some k ∈ s.keyStart :: s.outerStarts → k.required = false) :
    s.dropKey = some { s with keyStart := none } := by
  unfold dropKey
  cases start : s.keyStart with
  | none => simp
  | some k => simp [free k (by simp [start])]

theorem Is.endText (is : s.Is a) :
    ∃ u, s.endText = some u ∧ u.tokens = (a.closed (-1)).tokens ++ [.textEnd] ∧ u.whole = true ∧
      ∀ k, some k ∈ u.keyStart :: u.outerStarts → k.required = false := by
  have ended : ∀ place : Cursor, place.rest = a.rest →
      ∃ u, ((s.atPlace place).closeBlocks (-1)).dropKey.map
        (fun s => { s.push .textEnd with keyAllowed := false }) = some u ∧
        u.tokens = (a.closed (-1)).tokens ++ [.textEnd] ∧ u.whole = true ∧
        ∀ k, some k ∈ u.keyStart :: u.outerStarts → k.required = false := by
    intro place rest
    have is' : (s.atPlace place).Is { a with column := place.column } :=
      { is with rest, column := rfl }
    have closed := is'.closeBlocks (-1)
    rw [dropKey_eq closed.free]
    refine ⟨_, rfl, ?_, closed.whole, ?_⟩
    · exact congrArg (· ++ [Token.textEnd]) closed.tokens
    · intro k mem
      refine closed.free k ?_
      rcases List.mem_cons.mp mem with no | mem
      · cases no
      · exact List.mem_cons_of_mem _ mem
  by_cases first : s.place.column = 0
  · simp only [Scan.endText, if_pos first]
    exact ended s.place is.rest
  · simp only [Scan.endText, if_neg first]
    exact ended { s.place with line := s.place.line + 1, column := 0 } is.rest

/-- At the end of the text all blocks are closed. -/
theorem Stands.ofScan_end (stands : s.Stands a) (split : a.rest = sp.text ++ comment)
    (fits : sp.Fits a.tabs) (isComment : IsComment comment) :
    Tokens.ofScan s = ⟨(a.closed (-1)).tokens ++ [.textEnd]⟩ := by
  have split : a.rest = sp.text ++ (comment ++ []) := by rw [split, List.append_nil]
  obtain ⟨t, column, drops, is, -⟩ := stands.skips split fits isComment .nil (.inl rfl)
  have closed := is.closeBlocks column
  obtain ⟨u, ends, tokens, whole, free⟩ := closed.endText
  obtain ⟨k, ks, drops', -, -⟩ := dropStale_eq free
  have reads : (t.closeBlocks t.place.column).readToken = some u := by
    rw [is.column]
    unfold readToken
    rw [Cursor.peek?_zero, closed.rest]
    exact ends
  have tokens : u.tokens = (a.closed (-1)).tokens ++ [.textEnd] := by
    rw [tokens, Spot.closed_closed (by omega)]
    rfl
  have step : s.step = some (u.withKeys k ks) := by
    rw [Scan.step, drops]
    simp only [isCut_of_whole is.whole, isCut_of_whole whole, reads, drops']
    rfl
  rw [Tokens.ofScan, step]
  simp [withKeys, tokens]

end Scan

theorem Tokens.ofScan_step {s t : Scan} (step : s.step = some t)
    (more : t.tokens.getLast? ≠ some .textEnd)
    (shorter : t.place.rest.length < s.place.rest.length) : ofScan s = ofScan t := by
  rw [ofScan, step]
  simp only [if_neg more, if_pos shorter]

/-- Whether scans that stand at a spot go on to one of some spots, with the same tokens in the
end. -/
def Arrives (a : Spot) (goal : Spot → Prop) : Prop :=
  ∀ s : Scan, s.Stands a →
    ∃ (b : Spot) (t : Scan), goal b ∧ t.Stands b ∧ Tokens.ofScan s = Tokens.ofScan t

namespace Arrives

variable {a : Spot} {goal goal' : Spot → Prop}

theorem here (holds : goal a) : Arrives a goal := fun s stands => ⟨a, s, holds, stands, rfl⟩

theorem bind (first : Arrives a goal) (second : ∀ b, goal b → Arrives b goal') :
    Arrives a goal' := by
  intro s stands
  obtain ⟨b, t, holds, stands, same⟩ := first s stands
  obtain ⟨c, u, holds, stands, same'⟩ := second b holds t stands
  exact ⟨c, u, holds, stands, same.trans same'⟩

/-- Over one token that is read where it starts. -/
theorem token {sp : Spacing} {rest : List Char} (split : a.rest = sp.text ++ rest)
    (fits : sp.Fits a.tabs) (starts : StartsToken rest)
    (reads : ∀ t : Scan, t.Is ((a.past sp rest).closed (a.past sp rest).column) →
      ∃ b u, goal b ∧ t.readToken = some u ∧ u.Stands b ∧ u.place.rest.length < rest.length)
    (more : ∀ b, goal b → b.tokens.getLast? ≠ some .textEnd) : Arrives a goal := by
  intro s stands
  have crossing : ∃ v, s.step = some v ∧ (∃ b, goal b ∧ v.Stands b) ∧
      v.place.rest.length < s.place.rest.length := by
    refine stands.step_of split fits starts fun t is => ?_
    obtain ⟨b, u, holds, read, stands', shorter⟩ := reads t is
    obtain ⟨v, dropped, stands'', place⟩ := stands'.dropStale
    exact ⟨u, v, read, stands'.whole, dropped, ⟨b, holds, stands''⟩, place ▸ shorter⟩
  obtain ⟨v, step, ⟨b, holds, stands'⟩, shorter⟩ := crossing
  refine ⟨b, v, holds, stands', ?_⟩
  exact Tokens.ofScan_step step (stands'.tokens ▸ more b holds) shorter

/-- Over one token that is not to the left of the innermost block. -/
theorem inner {sp : Spacing} {rest : List Char} (split : a.rest = sp.text ++ rest)
    (fits : sp.Fits a.tabs) (starts : StartsToken rest)
    (inside : a.depth = 0 → a.indent ≤ sp.column a.column)
    (reads : ∀ t : Scan, t.Is (a.past sp rest) → ∃ b u, goal b ∧ t.readToken = some u ∧
      u.Stands b ∧ u.place.rest.length < rest.length)
    (more : ∀ b, goal b → b.tokens.getLast? ≠ some .textEnd) : Arrives a goal := by
  have same : (a.past sp rest).closed (a.past sp rest).column = a.past sp rest :=
    Spot.closed_eq inside
  refine token split fits starts (fun t is => ?_) more
  rw [same] at is
  exact reads t is

end Arrives

/-- Whether scans that stand at one spot go on to the other, with the same tokens in the end. -/
def Reaches (a b : Spot) : Prop :=
  ∀ s : Scan, s.Stands a → ∃ t : Scan, t.Stands b ∧ Tokens.ofScan s = Tokens.ofScan t

theorem Reaches.arrives {a b : Spot} {goal : Spot → Prop} (reaches : Reaches a b) (holds : goal b) :
    Arrives a goal := by
  intro s stands
  obtain ⟨t, stands, same⟩ := reaches s stands
  exact ⟨b, t, holds, stands, same⟩

theorem Arrives.reaches {a b : Spot} (arrives : Arrives a (· = b)) : Reaches a b := by
  intro s stands
  obtain ⟨_, t, rfl, stands, same⟩ := arrives s stands
  exact ⟨t, stands, same⟩

namespace Reaches

variable {a b : Spot}

/-- Over one token that is read where it starts. -/
theorem token {sp : Spacing} {rest : List Char} (split : a.rest = sp.text ++ rest)
    (fits : sp.Fits a.tabs) (starts : StartsToken rest)
    (reads : ∀ t : Scan, t.Is ((a.past sp rest).closed (a.past sp rest).column) →
      ∃ u, t.readToken = some u ∧ u.Stands b ∧ u.place.rest.length < rest.length)
    (more : b.tokens.getLast? ≠ some .textEnd) : Reaches a b := by
  refine (Arrives.token split fits starts (fun t is => ?_) (by rintro _ rfl; exact more)).reaches
  obtain ⟨u, read, stands, shorter⟩ := reads t is
  exact ⟨b, u, rfl, read, stands, shorter⟩

/-- Over one token that is not to the left of the innermost block. -/
theorem inner {sp : Spacing} {rest : List Char} (split : a.rest = sp.text ++ rest)
    (fits : sp.Fits a.tabs) (starts : StartsToken rest)
    (inside : a.depth = 0 → a.indent ≤ sp.column a.column)
    (reads : ∀ t : Scan, t.Is (a.past sp rest) →
      ∃ u, t.readToken = some u ∧ u.Stands b ∧ u.place.rest.length < rest.length)
    (more : b.tokens.getLast? ≠ some .textEnd) : Reaches a b := by
  refine (Arrives.inner split fits starts inside (fun t is => ?_)
    (by rintro _ rfl; exact more)).reaches
  obtain ⟨u, read, stands, shorter⟩ := reads t is
  exact ⟨b, u, rfl, read, stands, shorter⟩

end Reaches

end Spindle.Yaml
