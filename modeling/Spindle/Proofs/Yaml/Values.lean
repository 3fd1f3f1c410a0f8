import Spindle.Proofs.Yaml.Layout

/-!
# Scanning values

A scan goes over a value of a mapping to what follows it, and closes the blocks in between.
-/

namespace Spindle.Yaml

namespace Spacing

variable {tabs : Bool} {sp : Spacing}

theorem Fits.any (fits : sp.Fits tabs) : sp.Fits true := by
  cases tabs with
  | false => exact fits.mono
  | true => exact fits

theorem column_of_broken (broken : sp.broken = true) (c : Nat) : sp.column c = sp.column 0 := by
  cases sp with
  | blanks cs => cases broken
  | line l next => rfl

theorem endsWord_text (fits : sp.Fits tabs) (apart : sp.Apart) (nonempty : sp.text ≠ [])
    (rest : List Char) : endsWord (sp.text ++ rest).head? = true := by
  obtain ⟨b, first, blank⟩ := Spacing.head_text fits.any apart nonempty rest
  rw [Option.mem_def.mp first]
  simpa [endsWord] using blank

end Spacing

/-- What can stand after a value in a block at column `m`: a token at most as far in, or the end of
the text. -/
def Follows (m : Nat) (e : Edge) (sp : Spacing) (rest : List Char) : Prop :=
  (∃ column ≤ m, sp.Starts column e ∧ StartsToken rest ∧ rest ≠ []) ∨ sp.Ends e rest

namespace Follows

variable {m : Nat} {tabs : Bool} {sp : Spacing} {rest : List Char}

theorem mono {n : Nat} {e : Edge} (follows : Follows n e sp rest) (le : n ≤ m) :
    Follows m e sp rest := by
  rcases follows with ⟨column, le', starts⟩ | ends
  · exact .inl ⟨column, Nat.le_trans le' le, starts⟩
  · exact .inr ends

theorem fits (follows : Follows m (.token tabs) sp rest) : sp.Fits tabs ∧ sp.Apart := by
  rcases follows with ⟨column, -, starts, -⟩ | ends
  · exact ⟨starts.2.1, starts.2.2.1⟩
  · exact ⟨ends.1, ends.2.1⟩

theorem endsWord (follows : Follows m (.token tabs) sp rest) :
    endsWord (sp.text ++ rest).head? = true := by
  by_cases none : sp.text = []
  · rcases follows with ⟨column, -, starts, -⟩ | ends
    · exact absurd none (Spacing.text_ne_nil starts.2.2.2)
    · rw [none, ends.2.2.2 none]
      rfl
  · exact Spacing.endsWord_text follows.fits.1 follows.fits.2 none rest

theorem endsPlain (follows : Follows m (.token true) sp rest) :
    EndsPlain false (m + 1) sp rest := by
  obtain ⟨fits, apart⟩ := follows.fits
  rcases follows with ⟨column, le, ⟨column', -, -, broken⟩, starts, -⟩ | ⟨-, -, isComment, gap⟩
  · exact
      { fits, apart
        notBlank := fun b mem => ⟨(starts b mem).1, (starts b mem).2.1⟩
        ends := .inr (.inr ⟨rfl, broken, by omega⟩) }
  · rcases isComment with rfl | ⟨hash, noBreak⟩
    · exact { fits, apart, notBlank := by simp, ends := .inl rfl }
    · have nonempty : sp.text ≠ [] := fun none => by
        rw [gap none] at hash
        cases hash
      refine { fits, apart, notBlank := ?_, ends := .inr (.inl ⟨hash, nonempty⟩) }
      rw [hash]
      rintro b ⟨⟩
      decide

theorem endsBlock (follows : Follows m .block sp rest) : EndsBlock m sp rest := by
  rcases follows with ⟨column, le, ⟨column', ending, next, rfl, fits⟩, starts, -⟩ |
    ⟨rfl, rfl⟩ | ⟨⟨ending, next, rfl, fits⟩, isComment⟩
  · exact .inr ⟨ending, next, rfl, fits, .inl ⟨starts, Nat.le_trans (Nat.le_of_eq column') le⟩⟩
  · exact .inl ⟨rfl, rfl⟩
  · exact .inr ⟨ending, next, rfl, fits, .inr isComment⟩

end Follows

/-- Over a scalar further in than the innermost block. -/
theorem Arrives.scalar {a : Spot} {m : Nat} {sp next : Spacing} {s : ScalarText} {rest : List Char}
    (split : a.rest = sp.text ++ (s.text ++ (next.text ++ rest))) (fits : sp.Fits a.tabs)
    (block : a.depth = 0) (indent : a.indent = m) (inside : m < sp.column a.column)
    (scalar : s.Fits false m) (follows : Follows m s.edge next rest) :
    Arrives a fun d => ∃ c column, s.Means c ∧ d = { a with
      rest := next.text ++ rest
      column
      tokens := a.tokens ++ [c.token]
      keyAllowed := s.edge.keyAllowed } := by
  have further : a.depth = 0 → a.indent < sp.column a.column := fun _ => by omega
  have flow : decide (a.depth ≠ 0) = false := by simp [block]
  cases s with
  | plain ws =>
    have words : ws.Fits (a.depth ≠ 0) (m + 1) := flow ▸ scalar.1
    have starts : StartsPlain (a.depth ≠ 0) ws.first := flow ▸ scalar.2
    have ends : EndsPlain (a.depth ≠ 0) (a.indent + 1) next rest := by
      rw [flow, indent]
      exact follows.endsPlain
    have crossing := Reaches.plain split fits (by omega) further words starts (by omega)
      (fun _ => by omega) ends
    rw [flow] at crossing
    exact crossing.arrives ⟨⟨ws.content, .plain⟩, _, rfl, rfl⟩
  | quoted single ws =>
    have notQuote : (next.text ++ rest).head? ≠ some '\'' := by
      intro first
      have ends := follows.endsWord
      rw [first] at ends
      cases ends
    have crossing := Reaches.quoted split fits further scalar fun _ => notQuote
    exact crossing.arrives ⟨⟨ws.values.content, Words.quotedStyle single⟩, _, rfl, rfl⟩
  | block b =>
    refine (Arrives.block split fits block indent (by omega) scalar.2 follows.endsBlock).bind ?_
    rintro d ⟨content, column, rfl⟩
    exact .here ⟨⟨content, b.style⟩, column, rfl, rfl⟩

theorem Spacing.Leads.column {m c : Nat} {tabs : Bool} {sp : Spacing} (leads : sp.Leads m tabs)
    (inside : m < c) : m < sp.column c := by
  cases sp with
  | blanks cs =>
    simp only [Spacing.column]
    omega
  | line l next => exact leads.further rfl

/-- Over the place of a scalar after a colon or a dash. -/
theorem Arrives.slot {a : Spot} {m : Nat} {tabs : Bool} {next : Spacing} {s : Slot}
    {rest : List Char} (split : a.rest = s.text ++ (next.text ++ rest)) (block : a.depth = 0)
    (allowed : a.keyAllowed = !tabs) (indent : a.indent = m) (inside : m < a.column)
    (slot : s.Fits tabs m) (follows : Follows m (s.edge (.token tabs)) next rest) :
    Arrives a fun d => ∃ c column, s.Means c ∧ d = { a with
      rest := next.text ++ rest
      column
      tokens := a.tokens ++ Content.tokens c
      keyAllowed := (s.edge (.token tabs)).keyAllowed } := by
  cases s with
  | none =>
    refine .here ⟨none, a.column, .nothing, ?_⟩
    cases a
    simp_all [Slot.text, Content.tokens, Slot.edge, Edge.keyAllowed]
  | some p =>
    obtain ⟨lead, scalar⟩ := slot
    have split : a.rest = p.before.text ++ (p.scalar.text ++ (next.text ++ rest)) := by
      simpa [Slot.text] using split
    have fits : p.before.Fits a.tabs := by
      simpa [Spot.tabs, block, allowed] using lead.fits
    refine (Arrives.scalar split fits block indent (lead.column inside) scalar follows).bind ?_
    rintro d ⟨c, column, means, rfl⟩
    exact .here ⟨some c, column, .scalar means, rfl⟩

/-! ## Block sequences -/

theorem Spacing.Starts.fits {column : Nat} {e : Edge} {sp : Spacing} (starts : sp.Starts column e)
    (other : e ≠ .start) : sp.Fits (!e.keyAllowed) ∧ sp.broken = true := by
  obtain ⟨-, starts⟩ := starts
  cases e with
  | start => exact absurd rfl other
  | token tabs => exact ⟨by simpa [Edge.keyAllowed] using starts.1, starts.2.2⟩
  | block =>
    obtain ⟨ending, next, rfl, fits⟩ := starts
    exact ⟨⟨List.forall_mem_nil _, .inl rfl, fits⟩, rfl⟩

theorem Slot.edge_ne_start (s : Slot) (tabs : Bool) : s.edge (.token tabs) ≠ .start := by
  rcases s with - | ⟨before, ws | ⟨single, ws⟩ | b⟩ <;> simp [Slot.edge, ScalarText.edge]

theorem Slot.Fits.endsWord {tabs : Bool} {m : Nat} {s : Slot} {next : Spacing} {rest : List Char}
    (slot : s.Fits tabs m) (follows : Follows m (s.edge (.token tabs)) next rest) :
    Yaml.endsWord (s.text ++ (next.text ++ rest)).head? = true := by
  cases s with
  | none => exact follows.endsWord
  | some p =>
    rw [Slot.text, List.append_assoc]
    exact Spacing.endsWord_text slot.1.fits slot.1.apart slot.1.nonempty _

namespace Spot

variable {a : Spot} {k : Nat}

theorem indent_opened (inside : a.indent ≤ k) (token : Token) : (a.opened k token).indent = k := by
  simp only [opened]
  split
  · rfl
  · omega

/-- A block that is open is not opened again. -/
theorem opened_eq (indent : a.indent = k) (token : Token) : a.opened k token = a := by
  have same : ¬ a.indent < (k : Int) := by omega
  simp only [opened, if_neg same]

end Spot

/-- Over an item, which may be the first one of a block. -/
theorem Arrives.item {a : Spot} {k : Nat} {e : Edge} {i : Item} {next : Spacing} {rest : List Char}
    (split : a.rest = i.text ++ (next.text ++ rest)) (block : a.depth = 0)
    (allowed : a.keyAllowed = e.keyAllowed) (other : e ≠ .start) (inside : a.indent ≤ k)
    (starts : i.before.Starts k e) (slot : i.slot.Fits false k)
    (follows : Follows k (i.slot.edge (.token false)) next rest) :
    Arrives a fun d => ∃ c column, i.slot.Means c ∧ d = { a.opened k .blockSequence with
      rest := next.text ++ rest
      column
      tokens := (a.opened k .blockSequence).tokens ++ .blockEntry :: Content.tokens c
      keyAllowed := (i.slot.edge (.token false)).keyAllowed } := by
  obtain ⟨fits, broken⟩ := starts.fits other
  have split : a.rest = i.before.text ++ ('-' :: (i.slot.text ++ (next.text ++ rest))) := by
    simpa [Item.text] using split
  have fits : i.before.Fits a.tabs := by simpa [Spot.tabs, block, allowed] using fits
  have column : k = i.before.column a.column := by
    rw [Spacing.column_of_broken broken]
    exact starts.1.symm
  have dash := Reaches.dash split fits (slot.endsWord follows) block (by simp [broken]) column
  have same : a.closed k = a := Spot.closed_eq fun _ => inside
  rw [same] at dash
  refine (dash.arrives rfl).bind ?_
  rintro b rfl
  have indent : (a.opened k .blockSequence).indent = k := Spot.indent_opened inside _
  refine .bind (.slot rfl block (by rfl) indent (Nat.lt_succ_self k) slot follows) ?_
  · rintro d ⟨c, column, means, rfl⟩
    refine .here ⟨c, column, means, ?_⟩
    simp

theorem Spacing.Starts.follows {k : Nat} {e : Edge} {sp : Spacing} {b : Char} {rest : List Char}
    (starts : sp.Starts k e) (token : StartsToken (b :: rest)) : Follows k e sp (b :: rest) :=
  .inl ⟨k, Nat.le_refl k, starts, token, by simp⟩

/-- Over the items of a block sequence. -/
theorem Arrives.items {a : Spot} {n k : Nat} {e : Edge} {i : Item} {is : List Item}
    {next : Spacing} {rest : List Char}
    (split : a.rest = Item.allText (i :: is) ++ (next.text ++ rest)) (block : a.depth = 0)
    (allowed : a.keyAllowed = e.keyAllowed) (other : e ≠ .start) (inside : a.indent ≤ k)
    (fits : Item.AllFit k e (i :: is)) (le : n ≤ k)
    (follows : Follows n (Item.lastEdge e (i :: is)) next rest) :
    Arrives a fun d => ∃ cs column,
      List.Forall₂ (fun c (i : Item) => i.slot.Means c) cs (i :: is) ∧
      d = { a.opened k .blockSequence with
        rest := next.text ++ rest
        column
        tokens := (a.opened k .blockSequence).tokens ++
          cs.flatMap fun c => .blockEntry :: Content.tokens c
        keyAllowed := (Item.lastEdge e (i :: is)).keyAllowed } := by
  induction is generalizing a e i with
  | nil =>
    have split : a.rest = i.text ++ (next.text ++ rest) := by simpa [Item.allText] using split
    have item := Arrives.item split block allowed other inside fits.1 fits.2.1 (follows.mono le)
    refine item.bind ?_
    rintro d ⟨c, column, means, rfl⟩
    refine .here ⟨[c], column, .cons means .nil, ?_⟩
    simp [Item.lastEdge]
  | cons j is ih =>
    have split : a.rest = i.text ++ (j.before.text ++ ('-' :: (j.slot.text ++
        (Item.allText is ++ (next.text ++ rest))))) := by
      simpa [Item.allText, Item.text] using split
    obtain ⟨starts, slot, later⟩ := fits
    have item := Arrives.item split block allowed other inside starts slot
      (later.1.follows (Reaches.startsToken_mark (by simp)))
    refine item.bind ?_
    rintro d ⟨c, column, means, here⟩
    have indent : d.indent = k := by
      rw [here]
      exact Spot.indent_opened inside .blockSequence
    have split : d.rest = Item.allText (j :: is) ++ (next.text ++ rest) := by
      rw [here]
      simp [Item.allText, Item.text]
    have block : d.depth = 0 := by
      rw [here]
      exact block
    have allowed : d.keyAllowed = (i.slot.edge (.token false)).keyAllowed := by rw [here]
    refine .bind (ih split block allowed (Slot.edge_ne_start _ _) (Int.le_of_eq indent) later
      follows) ?_
    rintro d' ⟨cs, column', means', rfl⟩
    refine .here ⟨c :: cs, column', .cons means means', ?_⟩
    rw [Spot.opened_eq indent, here]
    simp [Item.lastEdge]

/-! ## Brackets -/

variable {a : Spot} {sp next : Spacing} {rest : List Char}

/-- What stands after a scalar inside of brackets. -/
theorem endsPlain_inside {indent : Int} {b : Char} (fits : next.FitsInside)
    (mark : isFlowIndicator b = true) : EndsPlain true indent next (b :: rest) where
  fits := fits.fits
  apart := fits.apart
  notBlank := by
    rintro d ⟨⟩
    simp only [isFlowIndicator, Bool.or_eq_true, decide_eq_true_eq] at mark
    rcases mark with (((rfl | rfl) | rfl) | rfl) | rfl <;> decide
  ends := .inl (endsRun_indicator rest mark)

theorem Spacing.FitsInside.column_pos (fits : sp.FitsInside) {c : Nat} (positive : c ≠ 0) :
    sp.column c ≠ 0 := by
  cases sp with
  | blanks cs =>
    simp only [Spacing.column]
    omega
  | line l next => exact fits.further rfl

/-- Over a scalar inside of brackets. -/
theorem Arrives.scalarInside {b : Char} {s : ScalarText}
    (split : a.rest = sp.text ++ (s.text ++ (next.text ++ (b :: rest)))) (isOpen : a.depth ≠ 0)
    (column : a.column ≠ 0) (fits : sp.FitsInside) (scalar : s.Fits true 0)
    (fits' : next.FitsInside) (mark : isFlowIndicator b = true) :
    Arrives a fun d => ∃ c column keyAllowed, s.Means c ∧ d = { a with
      rest := next.text ++ (b :: rest)
      column
      tokens := a.tokens ++ [c.token]
      keyAllowed } := by
  have flow : decide (a.depth ≠ 0) = true := by simp [isOpen]
  have tabs : sp.Fits a.tabs := by simpa [Spot.tabs, isOpen] using fits.fits
  cases s with
  | plain ws =>
    have words : ws.Fits (a.depth ≠ 0) 1 := flow ▸ scalar.1
    have starts : StartsPlain (a.depth ≠ 0) ws.first := flow ▸ scalar.2
    have ends : EndsPlain (a.depth ≠ 0) (a.indent + 1) next (b :: rest) := by
      rw [flow]
      exact endsPlain_inside fits' mark
    have crossing := Reaches.plain split tabs (fits.column_pos column)
      (fun block => absurd block isOpen) words starts (by omega)
      (fun block => absurd block isOpen) ends
    exact crossing.arrives ⟨⟨ws.content, .plain⟩, _, _, rfl, rfl⟩
  | quoted single ws =>
    have notQuote : (next.text ++ (b :: rest)).head? ≠ some '\'' := by
      intro first
      by_cases none : next.text = []
      · rw [none] at first
        cases first
        cases mark
      · have ends := Spacing.endsWord_text fits'.fits fits'.apart none (b :: rest)
        rw [first] at ends
        cases ends
    have crossing := Reaches.quoted split tabs (fun block => absurd block isOpen) scalar
      fun _ => notQuote
    exact crossing.arrives ⟨⟨ws.values.content, Words.quotedStyle single⟩, _, _, rfl, rfl⟩
  | block b => cases scalar.1

/-- Over the scalars that have commas. -/
theorem Arrives.members {is : List Member} (split : a.rest = is.flatMap Member.text ++ rest)
    (isOpen : a.depth ≠ 0) (column : a.column ≠ 0) (fits : ∀ i ∈ is, i.Fits) :
    Arrives a fun d => ∃ cs column keyAllowed,
      List.Forall₂ (fun c (i : Member) => i.scalar.Means c) cs is ∧ column ≠ 0 ∧
      d = { a with
        rest
        column
        tokens := a.tokens ++ cs.flatMap fun c => [c.token, .flowEntry]
        keyAllowed } := by
  induction is generalizing a with
  | nil =>
    refine .here ⟨[], a.column, a.keyAllowed, .nil, column, ?_⟩
    cases a
    simp_all
  | cons i is ih =>
    obtain ⟨before, scalar, after⟩ := fits i (by simp)
    have split : a.rest = i.before.text ++ (i.scalar.text ++ (i.after.text ++
        (',' :: (is.flatMap Member.text ++ rest)))) := by
      simpa [Member.text] using split
    refine .bind (.scalarInside split isOpen column before scalar after rfl) ?_
    rintro d ⟨c, column, keyAllowed, means, rfl⟩
    have crossing := Reaches.comma (a := { a with
      rest := i.after.text ++ (',' :: (is.flatMap Member.text ++ rest))
      column
      tokens := a.tokens ++ [c.token]
      keyAllowed }) rfl (by simpa [Spot.tabs, isOpen] using after.fits) isOpen
    refine .bind (crossing.arrives rfl) ?_
    rintro d rfl
    refine .bind (ih rfl isOpen (by simp) fun i mem => fits i (by simp [mem])) ?_
    rintro d ⟨cs, column, keyAllowed, means', positive, rfl⟩
    refine .here ⟨c :: cs, column, keyAllowed, .cons means means', positive, ?_⟩
    simp

/-- Over the place of the scalar that has no comma. -/
theorem Arrives.lastInside {s : Slot} {b : Char}
    (split : a.rest = s.text ++ (next.text ++ (b :: rest))) (isOpen : a.depth ≠ 0)
    (column : a.column ≠ 0) (fits : ∀ p ∈ s, p.before.FitsInside ∧ p.scalar.Fits true 0)
    (fits' : next.FitsInside) (mark : isFlowIndicator b = true) :
    Arrives a fun d => ∃ c column keyAllowed, s.Means c ∧ d = { a with
      rest := next.text ++ (b :: rest)
      column
      tokens := a.tokens ++ Content.tokens c
      keyAllowed } := by
  cases s with
  | none =>
    refine .here ⟨none, a.column, a.keyAllowed, .nothing, ?_⟩
    cases a
    simp_all [Slot.text, Content.tokens]
  | some p =>
    obtain ⟨before, scalar⟩ := fits p rfl
    have split : a.rest = p.before.text ++ (p.scalar.text ++ (next.text ++ (b :: rest))) := by
      simpa [Slot.text] using split
    refine .bind (.scalarInside split isOpen column before scalar fits' mark) ?_
    rintro d ⟨c, column, keyAllowed, means, rfl⟩
    exact .here ⟨some c, column, keyAllowed, .scalar means, rfl⟩

/-- Over a sequence inside of brackets, which may stand inside of others. -/
theorem Arrives.bracketed {b : Brackets} (split : a.rest = b.text ++ rest)
    (tabs : b.before.Fits a.tabs) (inside : a.depth = 0 → a.indent < b.before.column a.column)
    (fits : b.FitsInner) :
    Arrives a fun d => ∃ cs last column,
      List.Forall₂ (fun c (i : Member) => i.scalar.Means c) cs b.members ∧ b.last.Means last ∧
      d = { a with
        rest
        column
        tokens := a.tokens ++ (Node.brackets cs last).tokens
        keyAllowed := false } := by
  have split : a.rest = b.before.text ++ ('[' :: (b.inner ++ rest)) := by
    simpa [Brackets.text] using split
  have opens := Reaches.openBracket .square split tabs inside
  refine .bind (opens.arrives rfl) ?_
  rintro d rfl
  have inner : b.inner ++ rest = b.members.flatMap Member.text ++
      (b.last.text ++ (b.close.text ++ (']' :: rest))) := by simp [Brackets.inner]
  refine .bind (.members inner (by simp) (by simp) fits.members) ?_
  rintro d ⟨cs, column, keyAllowed, means, positive, rfl⟩
  refine .bind (.lastInside (by rfl) (by simp) positive fits.last fits.close rfl) ?_
  rintro d ⟨l, column', keyAllowed', means', rfl⟩
  have closes := Reaches.closeBracket .square (a := { a with
    rest := b.close.text ++ (']' :: rest)
    column := column'
    tokens := a.tokens ++ [.flowSequence] ++ (cs.flatMap fun c => [c.token, .flowEntry]) ++
      Content.tokens l
    keyAllowed := keyAllowed'
    depth := a.depth + 1 }) rfl (by simpa [Spot.tabs] using fits.close.fits) (by simp)
  refine closes.arrives ⟨cs, l, b.close.column column' + 1, means, means', ?_⟩
  simp [Node.tokens, Bracket.closingToken]

/-- Over a sequence inside of brackets as the value of a key. -/
theorem Arrives.brackets {m : Nat} {b : Brackets} (split : a.rest = b.text ++ rest)
    (block : a.depth = 0) (allowed : a.keyAllowed = false) (indent : a.indent = m)
    (inside : m < a.column) (fits : b.Fits m) :
    Arrives a fun d => ∃ cs last column,
      List.Forall₂ (fun c (i : Member) => i.scalar.Means c) cs b.members ∧ b.last.Means last ∧
      d = { a with
        rest
        column
        tokens := a.tokens ++ (Node.brackets cs last).tokens
        keyAllowed := false } := by
  have tabs : b.before.Fits a.tabs := by simpa [Spot.tabs, block, allowed] using fits.before.fits
  have column := fits.before.column inside
  exact .bracketed split tabs (fun _ => by omega) fits.inner

/-! ## Values -/

theorem Spot.closing_self (column : Int) (tokens : List Token) (outers : List Int) :
    closing column column tokens outers = (column, outers, tokens) := by
  cases outers with
  | nil => rfl
  | cons outer outers => rw [closing, if_neg (Int.lt_irrefl column)]

theorem Spot.left_of_indent {n : Nat} (block : a.depth = 0) (indent : a.indent = n) :
    a.left n = ((n : Int), a.outers, a.tokens) := by
  rw [left, if_pos block, indent, closing_self]

/-- A block sequence is closed with what is further in than its key. -/
theorem Spot.left_opened {n k : Nat} (block : a.depth = 0) (indent : a.indent = n) (le : n ≤ k)
    (ts : List Token) :
    ({ a.opened k .blockSequence with
        tokens := (a.opened k .blockSequence).tokens ++ ts } : Spot).left n =
      ((n : Int), a.outers, a.tokens ++ ((if k = n then [] else [.blockSequence]) ++
        (ts ++ if k = n then [] else [.blockEnd]))) := by
  by_cases same : k = n
  · subst same
    rw [opened_eq indent]
    simpa using left_of_indent (a := { a with tokens := a.tokens ++ ts }) block indent
  · have further : (n : Int) < k := by omega
    simp [left, opened, block, indent, same, further, closing, closing_self]

/-- Over the value of a key in a mapping at column `n`. -/
theorem Arrives.value {n : Nat} {v : ValueText} (split : a.rest = v.text ++ (next.text ++ rest))
    (block : a.depth = 0) (allowed : a.keyAllowed = false) (indent : a.indent = n)
    (inside : n < a.column) (fits : v.Fits n) (follows : Follows n v.edge next rest) :
    Arrives a fun d => ∃ node, v.Means n node ∧ d.rest = next.text ++ rest ∧ d.depth = 0 ∧
      d.keyAllowed = v.edge.keyAllowed ∧
      d.left n = ((n : Int), a.outers, a.tokens ++ node.tokens) := by
  cases v with
  | slot s =>
    have allowed : a.keyAllowed = !true := allowed
    refine .bind (.slot split block allowed indent inside fits follows) ?_
    rintro d ⟨c, column, means, rfl⟩
    refine .here ⟨.scalar c, .slot means, rfl, block, rfl, ?_⟩
    exact Spot.left_of_indent block indent
  | brackets b =>
    have split : a.rest = b.text ++ (next.text ++ rest) := split
    refine .bind (.brackets split block allowed indent inside fits) ?_
    rintro d ⟨cs, last, column, members, means, rfl⟩
    refine .here ⟨.brackets cs last, .brackets members means, rfl, block, rfl, ?_⟩
    exact Spot.left_of_indent block indent
  | items k is =>
    obtain ⟨le, nonempty, fits⟩ := fits
    obtain ⟨i, is, rfl⟩ := List.exists_cons_of_ne_nil nonempty
    have allowed : a.keyAllowed = (Edge.token true).keyAllowed := allowed
    refine .bind (.items split block allowed (by simp) (by omega) fits le follows) ?_
    rintro d ⟨cs, column, all, rfl⟩
    cases all with
    | cons means all =>
      refine .here ⟨.sequence (k = n) _ _, .items (.cons means all), rfl, block, rfl, ?_⟩
      refine (Spot.left_opened block indent le _).trans ?_
      simp [Node.tokens]

end Spindle.Yaml
