import Spindle.Proofs.Yaml.BlockLines

/-!
# Block scalars

A block scalar has a header on the line where it starts and its text on the lines after it. Their
indentation is given in the header or told by the first line with text.
-/

namespace Spindle.Yaml

variable {indent : Option Nat} {widest : Nat} {breaks rest : List Char} {c : Cursor} {k : Nat}
variable {fold : Bool} {n : Nat} {place : Cursor}

/-! ## Text -/

/-- A line of a block scalar, with the break before it. -/
structure BlockLine where
  ending : Break
  spaces : Nat
  body : List Char

namespace BlockLine

def text (l : BlockLine) : List Char := l.ending.text ++ (List.replicate l.spaces ' ' ++ l.body)

/-- Whether the line can be one of a scalar indented by `n`. -/
structure Fits (n : Nat) (l : BlockLine) : Prop where
  noBreak : ∀ b ∈ l.body, isBreak b = false
  notSpace : l.body.head? ≠ some ' '
  further : l.body ≠ [] → n ≤ l.spaces

/-- Whether the indentation can be told from the first line with text. -/
def Tells (n : Nat) : List BlockLine → Prop
  | [] => False
  | l :: ls =>
    l.body = [] ∧ l.spaces ≤ n ∧ Tells n ls ∨
      l.body ≠ [] ∧ l.body.head? ≠ some '\t' ∧ l.spaces = n

/-- A line is empty or has text. -/
theorem Fits.cases {l : BlockLine} (fits : l.Fits n) :
    l.body = [] ∧ l.spaces ≤ n ∨ n ≤ l.spaces ∧ (l.body ≠ [] ∨ n < l.spaces) := by
  by_cases none : l.body = []
  · rcases Nat.lt_or_ge n l.spaces with more | narrow
    · exact .inr ⟨by omega, .inr more⟩
    · exact .inl ⟨none, narrow⟩
  · exact .inr ⟨fits.further none, .inl none⟩

/-- The end of a line whose indentation starts at a place. -/
def after (c : Cursor) (l : BlockLine) : Cursor := (c.advance l.spaces).advance l.body.length

variable {l : BlockLine}

theorem rest_after (split : c.rest = List.replicate l.spaces ' ' ++ (l.body ++ rest)) :
    (l.after c).rest = rest :=
  Cursor.rest_advance (by simpa using Cursor.rest_advance_spaces split l.spaces.le_refl)

theorem Fits.passes {ending : Break} (fits : l.Fits n) (start : c.column = 0)
    (split : c.rest = List.replicate l.spaces ' ' ++ (l.body ++ (ending.text ++ rest)))
    (later : Passes fold n (l.after c).pastBreak place) : Passes fold n c place := by
  rcases fits.cases with ⟨none, narrow⟩ | ⟨further, nonempty⟩
  · have here : l.after c = c.advance l.spaces := by
      rw [after, none, List.length_nil, Cursor.advance_zero]
    rw [here] at later
    rw [none] at split
    exact .empty start split narrow later
  · exact .line start split fits.noBreak fits.notSpace further nonempty later

theorem Fits.passes_end (fits : l.Fits n) (start : c.column = 0)
    (split : c.rest = List.replicate l.spaces ' ' ++ l.body) : Passes fold n c (l.after c) := by
  rcases fits.cases with ⟨none, narrow⟩ | ⟨further, nonempty⟩
  · have here : l.after c = c.advance l.spaces := by
      rw [after, none, List.length_nil, Cursor.advance_zero]
    rw [here]
    rw [none] at split
    exact .token start split (by simp)
      ((Nat.lt_or_eq_of_le narrow).imp_right fun same => ⟨same, rfl⟩)
  · exact .last start split fits.noBreak fits.notSpace further nonempty

end BlockLine

def blockText (ls : List BlockLine) : List Char := ls.flatMap BlockLine.text

/-- What can stand after a block scalar: the end of the line of its last text, and other lines. -/
def EndsBlock (m : Nat) (sp : Spacing) (rest : List Char) : Prop :=
  sp = .blanks [] ∧ rest = [] ∨
    ∃ ending next, sp = .line ⟨[], [], ending⟩ next ∧ EndsLines m next rest

theorem EndsBlock.stops {m : Nat} {sp : Spacing} (ends : EndsBlock m sp rest) :
    ∀ b ∈ (sp.text ++ rest).head?, isBreak b = true := by
  rcases ends with ⟨rfl, rfl⟩ | ⟨ending, next, rfl, -⟩
  · simp [Spacing.text]
  · obtain ⟨b, first, isBreak, -⟩ := ending.head_isBreak (next.text ++ rest)
    intro d mem
    have mem : d ∈ (ending.text ++ (next.text ++ rest)).head? := by
      simpa [Spacing.text, Line.text] using mem
    rw [first] at mem
    cases mem
    exact isBreak

/-- From the start of a line to what follows the scalar. -/
theorem passes_lines (fold : Bool) {l : BlockLine} {ls : List BlockLine} {sp : Spacing} {m : Nat}
    (start : c.column = 0)
    (split : c.rest =
      List.replicate l.spaces ' ' ++ (l.body ++ (blockText ls ++ (sp.text ++ rest))))
    (first : l.Fits n) (fits : ∀ l ∈ ls, l.Fits n) (ends : EndsBlock m sp rest) (inside : m < n) :
    ∃ place last, Passes fold n c place ∧ last.rest = sp.text ++ rest ∧ SameSkip last place := by
  have atEnd := BlockLine.rest_after split
  induction ls generalizing c l with
  | nil =>
    rcases ends with ⟨rfl, rfl⟩ | ⟨ending, next, rfl, ends⟩
    · have split : c.rest = List.replicate l.spaces ' ' ++ l.body := by
        simpa [blockText, Spacing.text] using split
      exact ⟨_, _, first.passes_end start split, atEnd, .refl _⟩
    · have split : c.rest = List.replicate l.spaces ' ' ++
          (l.body ++ (ending.text ++ (next.text ++ rest))) := by
        simpa [blockText, Spacing.text, Line.text] using split
      have left : (l.after c).rest = ending.text ++ (next.text ++ rest) :=
        BlockLine.rest_after split
      obtain ⟨-, after, column⟩ := Cursor.readBreak_eq ending left
      obtain ⟨place, passes, same⟩ := passes_spacing fold column after ends inside
      exact ⟨place, _, first.passes start split passes, atEnd, .break left same⟩
  | cons next ls ih =>
    have split : c.rest = List.replicate l.spaces ' ' ++ (l.body ++ (next.ending.text ++
        (List.replicate next.spaces ' ' ++
          (next.body ++ (blockText ls ++ (sp.text ++ rest)))))) := by
      simpa [blockText, BlockLine.text] using split
    have left := BlockLine.rest_after split
    obtain ⟨-, after, column⟩ := Cursor.readBreak_eq next.ending left
    obtain ⟨place, last, passes, here, same⟩ := ih column after (fits next (by simp))
      (fun l mem => fits l (by simp [mem])) (BlockLine.rest_after after)
    exact ⟨place, last, first.passes start split passes, here, same⟩

/-! ## Indentation that is not given -/

theorem readBreaks_first (widest : Nat) (breaks : List Char) {l : BlockLine} (start : c.column = 0)
    (split : c.rest = List.replicate l.spaces ' ' ++ (l.body ++ rest)) (fits : l.Fits n)
    (text : l.body ≠ [] ∧ l.body.head? ≠ some '\t' ∧ l.spaces = n) (narrow : widest ≤ n) :
    ∃ bs next, readBreaks none widest breaks c = some (n, bs, next) ∧
      readBreaks (some n) widest breaks c = some (n, bs, next) := by
  obtain ⟨nonempty, noTab, rfl⟩ := text
  have stops : ∀ b ∈ (l.body ++ rest).head?, isBlank b = false ∧ isBreak b = false := by
    obtain ⟨d, body, here⟩ := List.exists_cons_of_ne_nil nonempty
    have noSpace := fits.notSpace
    have noBreak := fits.noBreak d (by simp [here])
    rw [here] at noTab noSpace ⊢
    rintro b ⟨⟩
    simp only [List.head?_cons, ne_eq, Option.some.injEq] at noTab noSpace
    exact ⟨by simp [isBlank, noTab, noSpace], noBreak⟩
  have widest' : max widest l.spaces = l.spaces := Nat.max_eq_right narrow
  refine ⟨breaks, c.advance l.spaces, ?_, ?_⟩
  · rw [readBreaks_token none _ _ start split stops (by simp), widest']
  · have narrow : ∀ d ∈ some l.spaces, l.spaces ≤ d := by simp
    rw [readBreaks_token (some _) _ _ start split stops narrow, widest']

/-- The indentation of the first line with text is taken. -/
theorem readBreaks_tells (widest : Nat) (breaks : List Char) {l : BlockLine}
    {ls : List BlockLine} (start : c.column = 0)
    (split : c.rest = List.replicate l.spaces ' ' ++ (l.body ++ (blockText ls ++ rest)))
    (fits : ∀ d ∈ l :: ls, d.Fits n) (tells : BlockLine.Tells n (l :: ls)) (narrow : widest ≤ n) :
    ∃ bs next, readBreaks none widest breaks c = some (n, bs, next) ∧
      readBreaks (some n) widest breaks c = some (n, bs, next) := by
  induction ls generalizing c l widest breaks with
  | nil =>
    rcases tells with ⟨-, -, no⟩ | text
    · cases no
    · exact readBreaks_first _ _ start split (fits l (by simp)) text narrow
  | cons next ls ih =>
    rcases tells with ⟨none, narrow', later⟩ | text
    · have split : c.rest = List.replicate l.spaces ' ' ++ (next.ending.text ++
          (List.replicate next.spaces ' ' ++ (next.body ++ (blockText ls ++ rest)))) := by
        simpa [none, blockText, BlockLine.text] using split
      have left := Cursor.rest_advance_spaces split l.spaces.le_refl
      rw [Nat.sub_self] at left
      obtain ⟨-, after, column⟩ := Cursor.readBreak_eq next.ending left
      rw [readBreaks_break next.ending start split (by simp),
        readBreaks_break next.ending start split (by rintro d ⟨⟩; exact narrow')]
      exact ih _ _ column after (fun d mem => fits d (List.mem_cons_of_mem _ mem)) later (by omega)
    · exact readBreaks_first _ _ start split (fits l (by simp)) text narrow

/-- From the start of a line to a place, where the indentation is given or has to be told. -/
def PassesFrom (fold : Bool) (given : Option Nat) (m : Nat) (c place : Cursor) : Prop :=
  ∃ w bs next, readBreaks given 0 [] c = some (w, bs, next) ∧
    ∀ t, ∃ t', readLines fold (given.getD (max w (m + 1))) t next = some (t', place)

variable {m : Nat}

theorem Passes.given (passes : Passes fold n c place) : PassesFrom fold (some n) m c place := by
  obtain ⟨w, bs, next, reads, -, lines⟩ := passes 0 []
  exact ⟨w, bs, next, reads, lines⟩

theorem Passes.told {l : BlockLine} {ls : List BlockLine} (passes : Passes fold n c place)
    (start : c.column = 0)
    (split : c.rest = List.replicate l.spaces ' ' ++ (l.body ++ (blockText ls ++ rest)))
    (fits : ∀ d ∈ l :: ls, d.Fits n) (tells : BlockLine.Tells n (l :: ls)) (inside : m < n) :
    PassesFrom fold none m c place := by
  obtain ⟨bs, next, auto, given⟩ := readBreaks_tells 0 [] start split fits
    tells (by omega)
  obtain ⟨w, bs', next', reads, -, lines⟩ := passes 0 []
  rw [given] at reads
  cases reads
  refine ⟨n, bs, next, auto, ?_⟩
  rw [Option.getD_none, Nat.max_eq_left inside]
  exact lines

/-- Where there is no text, the empty lines and the next token or comment tell the indentation. -/
def TellsNone (fold : Bool) (m widest : Nat) (breaks : List Char) (c : Cursor) : Prop :=
  ∃ w bs next place, readBreaks none widest breaks c = some (w, bs, next) ∧
    (∀ t, ∃ t', readLines fold (max w (m + 1)) t next = some (t', place)) ∧ SameSkip c place

variable {sp : Spacing}

/-- A place that ends the empty lines also ends them where the indentation is given. -/
theorem TellsNone.stop (start : c.column = 0) (split : c.rest = sp.text ++ rest)
    (ends : EndsLines m sp rest) {tail : List Char} (spaces : c.rest = List.replicate k ' ' ++ tail)
    (stops : ∀ b ∈ tail.head?, isBlank b = false ∧ isBreak b = false) :
    TellsNone fold m widest breaks c := by
  obtain ⟨place, passes, same⟩ := passes_spacing fold
    (n := max (max widest k) (m + 1)) start split ends (by omega)
  obtain ⟨w, bs, next, reads, -, lines⟩ := passes widest breaks
  rw [readBreaks_token (some _) _ _ start spaces stops (by rintro d ⟨⟩; omega)] at reads
  cases reads
  exact ⟨_, _, _, place, readBreaks_token none _ _ start spaces stops (by simp), lines, same⟩

theorem EndsLines.tellsNone (fold : Bool) (widest : Nat) (breaks : List Char)
    (ends : EndsLines m sp rest) (start : c.column = 0) (split : c.rest = sp.text ++ rest) :
    TellsNone fold m widest breaks c := by
  induction sp generalizing c widest breaks with
  | blanks cs =>
    have spaces : c.rest = List.replicate cs.length ' ' ++ rest := by
      rw [split, ← AreBlanks.eq_replicate ends.1]
      rfl
    refine .stop start split ends spaces ?_
    rcases ends.2 with ⟨starts, -⟩ | rfl | ⟨first, -⟩
    · exact fun b mem => ⟨(starts b mem).1, (starts b mem).2.1⟩
    · simp
    · rw [first]
      rintro b ⟨⟩
      decide
  | line l next ih =>
    obtain ⟨blank, isComment, later⟩ := ends.1
    have split' : c.rest = l.text ++ (next.text ++ rest) := by simpa [Spacing.text] using split
    have spaces : c.rest = List.replicate l.blanks.length ' ' ++
        (l.body ++ (l.ending.text ++ (next.text ++ rest))) := by
      rw [split', ← blank.eq_replicate]
      simp [Line.text]
    by_cases none : l.body = []
    · rw [none, List.nil_append] at spaces
      have here : l.after c = (c.advance l.blanks.length).pastBreak := by
        rw [Line.after, none, List.length_nil, Cursor.advance_zero]
      obtain ⟨after, column⟩ := l.after_form split'
      obtain ⟨w, bs, place, last, reads, lines, same⟩ :=
        ih (max widest l.blanks.length) (breaks ++ ['\n'])
          ⟨later, by simpa [Spacing.column] using ends.2⟩ column after
      refine ⟨w, bs, place, last, ?_, lines, .line split' blank isComment same⟩
      rw [readBreaks_break l.ending start spaces (by simp), ← here]
      exact reads
    · obtain ⟨first, -⟩ := isComment.resolve_left none
      refine .stop start split ends spaces ?_
      intro b mem
      rw [List.head?_append, first] at mem
      cases mem
      decide

/-! ## Headers -/

def Chomp.mark : Chomp → List Char
  | .strip => ['-']
  | .clip => []
  | .keep => ['+']

/-- The marks after `|` or `>`, in either order. -/
inductive Marks where
  | chompFirst (chomp : Chomp) (indent : Option Nat)
  | indentFirst (indent : Nat) (chomp : Chomp)

namespace Marks

def digits : Option Nat → List Char
  | none => []
  | some n => [Nat.digitChar n]

def text : Marks → List Char
  | chompFirst chomp indent => chomp.mark ++ digits indent
  | indentFirst indent chomp => digits (some indent) ++ chomp.mark

def header : Marks → Header
  | chompFirst chomp indent => ⟨chomp, indent⟩
  | indentFirst indent chomp => ⟨chomp, some indent⟩

end Marks

/-- Whether no marks follow. -/
def EndsMarks (rest : List Char) : Prop :=
  ∀ b ∈ rest.head?, b ≠ '+' ∧ b ≠ '-' ∧ b.isDigit = false

namespace Header

theorem readChomp_mark {chomp : Chomp} (split : c.rest = chomp.mark ++ rest)
    (ends : chomp = .clip → ∀ b ∈ rest.head?, b ≠ '+' ∧ b ≠ '-') :
    readChomp c = (if chomp = .clip then none else some chomp, c.advance chomp.mark.length) := by
  unfold readChomp
  rw [Cursor.peek?_zero, split]
  cases chomp with
  | strip => rfl
  | keep => rfl
  | clip =>
    have ends := ends rfl
    simp only [Chomp.mark, List.nil_append, List.length_nil, Cursor.advance_zero, if_true]
    cases first : rest.head? with
    | none => rfl
    | some b =>
      obtain ⟨notPlus, notMinus⟩ := ends b first
      split
      · simp_all
      · simp_all
      · rfl

theorem isDigit_digitChar {n : Nat} (one : 1 ≤ n) (nine : n ≤ 9) :
    (Nat.digitChar n).isDigit = true ∧ Nat.digitChar n ≠ '0' ∧ Nat.digitChar n ≠ '+' ∧
      Nat.digitChar n ≠ '-' ∧ (Nat.digitChar n).toNat - '0'.toNat = n := by
  obtain rfl | rfl | rfl | rfl | rfl | rfl | rfl | rfl | rfl : n = 1 ∨ n = 2 ∨ n = 3 ∨ n = 4 ∨
    n = 5 ∨ n = 6 ∨ n = 7 ∨ n = 8 ∨ n = 9 := by omega
  all_goals decide

theorem readIndent_digits (indent : Option Nat) (split : c.rest = Marks.digits indent ++ rest)
    (small : ∀ n ∈ indent, 1 ≤ n ∧ n ≤ 9)
    (ends : indent = none → ∀ b ∈ rest.head?, b.isDigit = false) :
    readIndent c = some (indent, c.advance (Marks.digits indent).length) := by
  unfold readIndent
  rw [Cursor.peek?_zero, split]
  cases indent with
  | some n =>
    obtain ⟨isDigit, notZero, -, -, value⟩ := isDigit_digitChar (small n rfl).1 (small n rfl).2
    simp only [Marks.digits, List.singleton_append, List.head?_cons, if_neg notZero, isDigit, value]
    rfl
  | none =>
    simp only [Marks.digits, List.nil_append, List.length_nil, Cursor.advance_zero]
    cases first : rest.head? with
    | none => rfl
    | some b =>
      have noDigit := ends rfl b first
      have notZero : b ≠ '0' := by
        rintro rfl
        cases noDigit
      simp [noDigit, notZero]

end Header

namespace Marks

variable {marks : Marks} {chomp : Chomp} {n : Nat}

theorem read_indentFirst (split : c.rest = digits (some n) ++ (chomp.mark ++ rest))
    (small : 1 ≤ n ∧ n ≤ 9) (ends : EndsMarks rest) :
    Header.read c = some (⟨chomp, some n⟩, c.advance (digits (some n) ++ chomp.mark).length) := by
  obtain ⟨-, -, notPlus, notMinus, -⟩ := Header.isDigit_digitChar small.1 small.2
  have none : Header.readChomp c = (none, c) := by
    have split : c.rest = Chomp.clip.mark ++ (digits (some n) ++ (chomp.mark ++ rest)) := split
    rw [Header.readChomp_mark split]
    · simp [Chomp.mark, Cursor.advance_zero]
    · rintro - b ⟨⟩
      exact ⟨notPlus, notMinus⟩
  have indents := Header.readIndent_digits (some n) split (by rintro m ⟨⟩; exact small)
    (by simp)
  have chomps := Header.readChomp_mark (Cursor.rest_advance split)
    fun _ b mem => ⟨(ends b mem).1, (ends b mem).2.1⟩
  unfold Header.read
  rw [none]
  simp only [indents, chomps, Cursor.advance_advance, List.length_append]
  cases chomp <;> rfl

theorem read (split : c.rest = marks.text ++ rest)
    (small : ∀ n ∈ marks.header.indent, 1 ≤ n ∧ n ≤ 9) (ends : EndsMarks rest) :
    Header.read c = some (marks.header, c.advance marks.text.length) := by
  cases marks with
  | indentFirst n chomp =>
    exact read_indentFirst (by simpa [text] using split) (small n rfl) ends
  | chompFirst chomp indent =>
    by_cases both : chomp = .clip ∧ indent ≠ none
    · obtain ⟨rfl, some⟩ := both
      obtain ⟨n, rfl⟩ := Option.ne_none_iff_exists'.mp some
      have same : text (.chompFirst .clip (Option.some n)) =
          digits (Option.some n) ++ Chomp.clip.mark := rfl
      rw [same]
      exact read_indentFirst (by simpa [text, Chomp.mark] using split) (small n rfl) ends
    have split : c.rest = chomp.mark ++ (digits indent ++ rest) := by simpa [text] using split
    have chomps := Header.readChomp_mark split fun clip => by
      have none : indent = none := Classical.byContradiction fun some => both ⟨clip, some⟩
      rw [none]
      exact fun b mem => ⟨(ends b mem).1, (ends b mem).2.1⟩
    have indents := Header.readIndent_digits indent (Cursor.rest_advance split) small
      fun _ b mem => (ends b mem).2.2
    rw [Cursor.advance_advance, ← List.length_append] at indents
    unfold Header.read
    rw [chomps]
    cases chomp with
    | strip => simp [indents, header, text]
    | keep => simp [indents, header, text]
    | clip =>
      have none : indent = none := Classical.byContradiction fun some => both ⟨rfl, some⟩
      subst none
      simp [indents, header, text]

end Marks

/-- The rest of the line of a header. -/
theorem endLine_eq {blanks comment : List Char} (split : c.rest = blanks ++ (comment ++ rest))
    (blank : AreBlanks true blanks) (isComment : IsComment comment)
    (stops : ∀ b ∈ rest.head?, isBreak b = true) :
    endLine c = some ((c.advance blanks.length).advance comment.length).pastBreak := by
  have left := Cursor.rest_advance split
  have spans : c.span isBlank = (blanks, c.advance blanks.length) := by
    refine Cursor.span_eq split blank.isBlank ?_
    intro b mem
    rcases isComment with rfl | ⟨first, -⟩
    · have := stops b mem
      cases blank : isBlank b with
      | false => rfl
      | true =>
        simp only [isBlank, Bool.or_eq_true, decide_eq_true_eq] at blank
        rcases blank with rfl | rfl <;> cases this
    · rw [List.head?_append, first] at mem
      cases mem
      decide
  have hash : rest.head? ≠ some '#' := fun first => by
    have := stops _ first
    cases this
  have ends : endsLine rest.head? = true := by
    cases first : rest.head? with
    | none => rfl
    | some b => exact stops b first
  have comments := Cursor.pastComment_eq left isComment hash (.inl ends)
  unfold Cursor.pastComment at comments
  have after := Cursor.rest_advance left
  unfold endLine
  simp only [spans, comments]
  rw [Cursor.peek?_zero, after, if_pos ends]
  rfl

/-! ## Whole scalars -/

structure BlockScalar where
  fold : Bool
  marks : Marks
  blanks : List Char
  comment : List Char
  lines : List BlockLine

namespace BlockScalar

def mark (b : BlockScalar) : Char := if b.fold then '>' else '|'

def text (b : BlockScalar) : List Char :=
  b.mark :: (b.marks.text ++ (b.blanks ++ (b.comment ++ blockText b.lines)))

def style (b : BlockScalar) : Style := if b.fold then .folded else .literal

/-- Whether the scalar can stand in a block at column `m`. Its indentation is given or told by its
first line with text. -/
structure Fits (m : Nat) (b : BlockScalar) : Prop where
  blanks : AreBlanks true b.blanks
  comment : IsComment b.comment
  small : ∀ d ∈ b.marks.header.indent, 1 ≤ d ∧ d ≤ 9
  lines : ∃ n, m < n ∧ (∀ l ∈ b.lines, l.Fits n) ∧ (∀ d ∈ b.marks.header.indent, n = d + m) ∧
    (b.marks.header.indent = none → b.lines = [] ∨ BlockLine.Tells n b.lines)

theorem Fits.endsMarks {b : BlockScalar} (fits : b.Fits m)
    (stops : ∀ d ∈ rest.head?, isBreak d = true) :
    EndsMarks (b.blanks ++ (b.comment ++ rest)) := by
  have first : ∀ d ∈ (b.blanks ++ (b.comment ++ rest)).head?,
      isBlank d = true ∨ d = '#' ∨ isBreak d = true := by
    intro d mem
    cases blanks : b.blanks with
    | cons e es =>
      rw [blanks] at mem
      cases mem
      exact .inl (fits.blanks.isBlank d (by simp [blanks]))
    | nil =>
      rw [blanks, List.nil_append] at mem
      rcases fits.comment with none | ⟨hash, -⟩
      · rw [none, List.nil_append] at mem
        exact .inr (.inr (stops d mem))
      · rw [List.head?_append, hash] at mem
        cases mem
        exact .inr (.inl rfl)
  have other : ∀ d, (isBlank d = true ∨ d = '#' ∨ isBreak d = true) →
      isWord d = false ∧ d ≠ '+' := by
    intro d kind
    refine ⟨?_, ?_⟩
    · cases word : isWord d with
      | false => rfl
      | true =>
        obtain ⟨noBlank, noBreak, -⟩ := class_of_isWord word
        rcases kind with blank | rfl | isBreak
        · simp [noBlank] at blank
        · cases word
        · simp [noBreak] at isBreak
    · rintro rfl
      rcases kind with no | no | no <;> cases no
  intro d mem
  obtain ⟨noWord, noPlus⟩ := other d (first d mem)
  simp only [isWord, Char.isAlphanum, Bool.or_eq_false_iff, decide_eq_false_iff_not] at noWord
  exact ⟨noPlus, noWord.2, noWord.1.1.2⟩

/-- The lines after the header. -/
theorem Fits.passes (fold : Bool) {b : BlockScalar} {sp : Spacing} (fits : b.Fits m)
    (split : c.rest = blockText b.lines ++ (sp.text ++ rest)) (ends : EndsBlock m sp rest) :
    ∃ place last, PassesFrom fold (b.marks.header.indent.map (· + m)) m c.pastBreak place ∧
      last.rest = sp.text ++ rest ∧ SameSkip last place := by
  obtain ⟨n, inside, lines, given, told⟩ := fits.lines
  cases here : b.lines with
  | cons l ls =>
    have split : c.rest = l.ending.text ++
        (List.replicate l.spaces ' ' ++ (l.body ++ (blockText ls ++ (sp.text ++ rest)))) := by
      simpa [here, blockText, BlockLine.text] using split
    obtain ⟨-, after, column⟩ := Cursor.readBreak_eq l.ending split
    rw [here] at lines told
    obtain ⟨place, last, passes, left, same⟩ := passes_lines fold column after
      (lines l (by simp)) (fun l mem => lines l (by simp [mem])) ends inside
    refine ⟨place, last, ?_, left, same⟩
    cases indent : b.marks.header.indent with
    | some d =>
      obtain rfl := given d indent
      exact passes.given
    | none => exact passes.told column after lines ((told indent).resolve_left (by simp)) inside
  | nil =>
    have split : c.rest = sp.text ++ rest := by simpa [here, blockText] using split
    rcases ends with ⟨rfl, rfl⟩ | ⟨ending, next, rfl, ends⟩
    · have none : c.rest = [] := split
      have stays : c.pastBreak = c := by
        rw [Cursor.pastBreak, Cursor.readBreak, none]
      rw [stays]
      exact ⟨c, c, ⟨_, _, c, readBreaks_nil none, fun t => ⟨t, readLines_stop (.inr none)⟩⟩, split,
        .refl c⟩
    · have left : c.rest = ending.text ++ (next.text ++ rest) := by
        simpa [Spacing.text, Line.text] using split
      obtain ⟨-, after, column⟩ := Cursor.readBreak_eq ending left
      cases indent : b.marks.header.indent with
      | some d =>
        obtain rfl := given d indent
        obtain ⟨place, passes, same⟩ := passes_spacing fold column after ends inside
        exact ⟨place, c, passes.given, split, .break left same⟩
      | none =>
        obtain ⟨w, bs, next, place, reads, lines, same⟩ := ends.tellsNone fold 0 [] column after
        exact ⟨place, c, ⟨w, bs, next, reads, lines⟩, split, .break left same⟩

/-- The text of the scalar depends on its lines and on what of the spacing after it is taken in. -/
theorem Fits.readBlock (fold : Bool) {b : BlockScalar} {sp : Spacing} (fits : b.Fits m)
    (split : c.rest = b.marks.text ++
      (b.blanks ++ (b.comment ++ (blockText b.lines ++ (sp.text ++ rest)))))
    (ends : EndsBlock m sp rest) :
    ∃ content place last, Yaml.readBlock fold m c = some (content, place) ∧
      last.rest = sp.text ++ rest ∧ SameSkip last place := by
  have stops : ∀ d ∈ (blockText b.lines ++ (sp.text ++ rest)).head?, isBreak d = true := by
    cases b.lines with
    | nil => exact ends.stops
    | cons l ls =>
      intro d mem
      obtain ⟨e, first, isBreak, -⟩ := l.ending.head_isBreak
        ((List.replicate l.spaces ' ' ++ l.body) ++ (blockText ls ++ (sp.text ++ rest)))
      have mem : d ∈ (l.ending.text ++ ((List.replicate l.spaces ' ' ++ l.body) ++
          (blockText ls ++ (sp.text ++ rest)))).head? := by
        simpa [blockText, BlockLine.text] using mem
      rw [first] at mem
      cases mem
      exact isBreak
  have reads := Marks.read split fits.small (fits.endsMarks stops)
  have left := Cursor.rest_advance split
  have line := endLine_eq left fits.blanks fits.comment stops
  obtain ⟨place, last, ⟨w, bs, next, breaks, lines⟩, here, same⟩ :=
    fits.passes fold (Cursor.rest_advance (Cursor.rest_advance left)) ends
  obtain ⟨t, lines⟩ := lines ⟨[], [], bs, false⟩
  refine ⟨t.chomped b.marks.header.chomp, place, last, ?_, here, same⟩
  have outer : max w (max ((m : Int) + 1).toNat 1) = max w (m + 1) := by omega
  unfold Yaml.readBlock
  rw [reads]
  simp only [line, Int.toNat_natCast, breaks, outer, lines]

end BlockScalar

/-! ## As a token -/

theorem Scan.readToken_block {t : Scan} {b : BlockScalar} (split : t.place.rest = b.mark :: rest)
    (block : t.inFlow = false) : t.readToken = t.readBlockScalar b.fold := by
  have first : t.place.peek? 0 = some b.mark := (peek?_of_rest split).1
  have marker : ∀ mark, mark = '-' ∨ mark = '.' → t.place.atMarker mark = false := by
    intro mark isMarker
    refine atMarker_eq_false split (.inr ?_)
    unfold BlockScalar.mark
    rcases isMarker with rfl | rfl <;> cases b.fold <;> decide
  unfold readToken
  rw [first]
  simp only [marker _ (.inl rfl), marker _ (.inr rfl)]
  unfold BlockScalar.mark
  cases b.fold <;> simp [block]

/-- Over a block scalar. What it stands for is some text. -/
theorem Arrives.block {a : Spot} {sp next : Spacing} {b : BlockScalar}
    (split : a.rest = sp.text ++ (b.text ++ (next.text ++ rest))) (fits : sp.Fits a.tabs)
    (isBlock : a.depth = 0) (indent : a.indent = m) (inside : m ≤ sp.column a.column)
    (scalar : b.Fits m) (ends : EndsBlock m next rest) :
    Arrives a fun d => ∃ content column, d = { a with
      rest := next.text ++ rest
      column
      tokens := a.tokens ++ [.scalar content b.style]
      keyAllowed := true } := by
  have text : b.text ++ (next.text ++ rest) = [b.mark] ++ (b.marks.text ++
      (b.blanks ++ (b.comment ++ (blockText b.lines ++ (next.text ++ rest))))) := by
    simp [BlockScalar.text]
  have starts : StartsToken (b.text ++ (next.text ++ rest)) := by
    rw [text]
    rintro d ⟨⟩
    unfold BlockScalar.mark
    cases b.fold <;> decide
  refine .inner split fits starts (fun _ => by omega) (fun t is => ?_) ?_
  rotate_left
  · rintro d ⟨content, column, rfl⟩
    simp
  have here := is.rest.trans text
  have flow : t.inFlow = false := is.inFlow.trans (by simp [Spot.past, isBlock])
  have indent : t.indent = m := is.indent.trans indent
  obtain ⟨content, place, last, reads, left, shorter, same⟩ :=
    scalar.readBlock b.fold (Cursor.rest_advance here) ends
  have atEnd := is.scanned (k := none) (by simp) (.scalar content b.style) last true
  have skips := same (t.scanned none (.scalar content b.style) last true) flow rfl
  rw [left] at atEnd
  refine ⟨_, t.scanned none (.scalar content b.style) place true, ⟨content, last.column, rfl⟩, ?_,
    ⟨_, atEnd, skips.symm⟩, ?_⟩
  · have reads : readBlock b.fold t.indent (t.place.advance 1) = some (content, place) :=
      indent ▸ reads
    rw [Scan.readToken_block here flow, Scan.readBlockScalar, Scan.dropKey_eq is.free, reads]
    rfl
  · change place.rest.length < _
    rw [left] at shorter
    rw [text]
    simp only [List.length_append, List.length_cons] at shorter ⊢
    omega

end Spindle.Yaml
