import Spindle.Yaml.Token

/-!
# Spacing between tokens

What may stand between two tokens of a text: blanks, comments and line breaks. A scan passes over
all of it, and so do the gaps of scalars, up to the first comment.
-/

namespace Spindle.Yaml

inductive Break where
  | lineFeed
  /-- A carriage return and a line feed. -/
  | pair
  deriving DecidableEq, Repr

def Break.text : Break → List Char
  | lineFeed => ['\n']
  | pair => ['\r', '\n']

/-- What stands on a line after its last token: blanks and a comment. The lines of a block scalar
have text in its place. -/
structure Line where
  blanks : List Char
  body : List Char
  ending : Break
  deriving DecidableEq, Repr

def Line.text (l : Line) : List Char := l.blanks ++ l.body ++ l.ending.text

/-- Lines without tokens, and the blanks before the next token. -/
inductive Spacing where
  | blanks (cs : List Char)
  | line (l : Line) (next : Spacing)
  deriving DecidableEq, Repr

/-- Spaces, and tabs where they are not taken for indentation. -/
def AreBlanks (tabs : Bool) (cs : List Char) : Prop := ∀ c ∈ cs, c = ' ' ∨ tabs = true ∧ c = '\t'

def IsComment (cs : List Char) : Prop :=
  cs = [] ∨ cs.head? = some '#' ∧ ∀ c ∈ cs, isBreak c = false

theorem IsComment.noBreak {cs : List Char} (isComment : IsComment cs) :
    ∀ c ∈ cs, isBreak c = false := by
  rcases isComment with rfl | ⟨-, noBreak⟩
  · exact List.forall_mem_nil _
  · exact noBreak

theorem IsComment.head {cs : List Char} (isComment : IsComment cs) :
    ∀ c ∈ cs.head?, isBlank c = false ∧ isBreak c = false := by
  rcases isComment with rfl | ⟨hash, -⟩
  · simp
  · rw [hash]
    rintro c ⟨⟩
    decide

theorem IsComment.head_ne_space {cs : List Char} (isComment : IsComment cs) :
    cs.head? ≠ some ' ' := by
  intro space
  exact absurd (isComment.head ' ' space).1 (by decide)

namespace Spacing

def text : Spacing → List Char
  | blanks cs => cs
  | line l next => l.text ++ next.text

/-- Whether a line ends in it. -/
def broken : Spacing → Bool
  | blanks _ => false
  | line _ _ => true

theorem text_ne_nil {sp : Spacing} (broken : sp.broken = true) : sp.text ≠ [] := by
  cases sp with
  | blanks cs => cases broken
  | line l next => cases h : l.ending <;> simp [text, Line.text, Break.text, h]

/-- Where a line continues after it that has come to a given column. -/
def column (c : Nat) : Spacing → Nat
  | blanks cs => c + cs.length
  | line _ next => next.column 0

/-- Tabs can only stand on the line where it starts. -/
def Fits (tabs : Bool) : Spacing → Prop
  | blanks cs => AreBlanks tabs cs
  | line l next => AreBlanks tabs l.blanks ∧ IsComment l.body ∧ next.Fits false

/-- Without comments. -/
def Bare : Spacing → Prop
  | blanks _ => True
  | line l next => l.body = [] ∧ next.Bare

/-- A comment in it does not touch what stands before it. -/
def Apart : Spacing → Prop
  | blanks _ => True
  | line l _ => l.body = [] ∨ l.blanks ≠ []

end Spacing

/-! ## Moving a cursor -/

namespace Cursor

variable {c : Cursor} {before rest : List Char}

theorem byteCount_append (s t : List Char) : byteCount (s ++ t) = byteCount s + byteCount t := by
  induction s with
  | nil => simp [byteCount]
  | cons b s ih => simp [byteCount, ih, Nat.add_assoc]

theorem rest_advance (split : c.rest = before ++ rest) : (c.advance before.length).rest = rest := by
  simp [advance, split]

theorem advance_zero (c : Cursor) : c.advance 0 = c := by
  simp [advance, byteCount]

theorem advance_advance (c : Cursor) (m n : Nat) : (c.advance m).advance n = c.advance (m + n) := by
  simp [advance, List.take_add, byteCount_append, Nat.add_assoc]

theorem peek?_zero (c : Cursor) : c.peek? 0 = c.rest.head? := by
  rw [peek?, List.head?_eq_getElem?]

theorem span_eq {p : Char → Bool} (split : c.rest = before ++ rest) (all : ∀ b ∈ before, p b = true)
    (stops : ∀ b ∈ rest.head?, p b = false) : c.span p = (before, c.advance before.length) := by
  have taken : (before ++ rest).takeWhile p = before := by
    rw [List.takeWhile_append_of_pos all]
    cases rest with
    | nil => simp
    | cons b rest => simp [stops b rfl]
  rw [span, split, taken]

/-- The place after the line break that stands here. -/
def pastBreak (c : Cursor) : Cursor := c.readBreak.2

theorem readBreak_eq (ending : Break) (split : c.rest = ending.text ++ rest) :
    c.readBreak = (['\n'], c.pastBreak) ∧ c.pastBreak.rest = rest ∧ c.pastBreak.column = 0 := by
  unfold pastBreak readBreak
  rw [split]
  cases ending with
  | lineFeed => exact ⟨rfl, rfl, rfl⟩
  | pair => exact ⟨rfl, rfl, rfl⟩

end Cursor

/-- The place after the line. -/
def Line.after (l : Line) (c : Cursor) : Cursor :=
  ((c.advance l.blanks.length).advance l.body.length).pastBreak

/-- The place after the spacing. -/
def Spacing.after (c : Cursor) : Spacing → Cursor
  | blanks cs => c.advance cs.length
  | line l next => next.after (l.after c)

theorem Line.after_form (l : Line) {c : Cursor} {rest : List Char}
    (split : c.rest = l.text ++ rest) :
    (l.after c).rest = rest ∧ (l.after c).column = 0 := by
  have split : c.rest = l.blanks ++ (l.body ++ (l.ending.text ++ rest)) := by
    simpa [Line.text] using split
  have here := Cursor.rest_advance (Cursor.rest_advance split)
  exact (Cursor.readBreak_eq l.ending here).2

theorem Line.rest_after (l : Line) {c : Cursor} {rest : List Char}
    (split : c.rest = l.text ++ rest) : (l.after c).rest = rest := (l.after_form split).1

theorem Spacing.after_form {sp : Spacing} {c : Cursor} {rest : List Char}
    (split : c.rest = sp.text ++ rest) :
    (sp.after c).rest = rest ∧ (sp.after c).column = sp.column c.column := by
  induction sp generalizing c with
  | blanks cs => exact ⟨Cursor.rest_advance split, rfl⟩
  | line l next ih =>
    have split : c.rest = l.text ++ (next.text ++ rest) := by simpa [Spacing.text] using split
    obtain ⟨left, column⟩ := l.after_form split
    obtain ⟨left', column'⟩ := ih left
    refine ⟨left', column'.trans ?_⟩
    rw [column]
    rfl

theorem Break.head_isBreak (ending : Break) (rest : List Char) :
    ∃ b, (ending.text ++ rest).head? = some b ∧ isBreak b = true ∧ isBlank b = false ∧ b ≠ '#' ∧
      b ≠ '\ufeff' := by
  cases ending with
  | lineFeed => exact ⟨'\n', rfl, by decide⟩
  | pair => exact ⟨'\r', rfl, by decide⟩

theorem AreBlanks.isBlank {tabs : Bool} {cs : List Char} (are : AreBlanks tabs cs) :
    ∀ c ∈ cs, isBlank c = true := by
  intro c mem
  rcases are c mem with rfl | ⟨-, rfl⟩ <;> rfl

theorem AreBlanks.mono {tabs : Bool} {cs : List Char} (are : AreBlanks false cs) :
    AreBlanks tabs cs := by
  intro c mem
  rcases are c mem with same | ⟨no, -⟩
  · exact .inl same
  · cases no

theorem Spacing.Fits.mono {sp : Spacing} {tabs : Bool} (fits : sp.Fits false) : sp.Fits tabs := by
  cases sp with
  | blanks cs => exact AreBlanks.mono fits
  | line l next => exact ⟨AreBlanks.mono fits.1, fits.2⟩

/-- The end of the text, or a character that no spacing starts with. -/
def StartsToken (s : List Char) : Prop :=
  ∀ b ∈ s.head?, isBlank b = false ∧ isBreak b = false ∧ b ≠ '#' ∧ b ≠ '\ufeff'

theorem StartsToken.nil : StartsToken [] := by simp [StartsToken]

namespace Cursor

variable {c : Cursor} {before rest : List Char}

/-- Passes over a byte order mark at the start of a line. -/
def pastMark (c : Cursor) : Cursor :=
  if c.column = 0 ∧ c.peek? 0 = some '\ufeff' then c.advance 1 else c

def pastBlanks (tabs : Bool) (c : Cursor) : Cursor :=
  (c.span fun b => b = ' ' || (tabs && b = '\t')).2

def pastComment (c : Cursor) : Cursor := if c.peek? 0 = some '#' then c.skipLine else c

theorem length_rest_advance_le (c : Cursor) (n : Nat) :
    (c.advance n).rest.length ≤ c.rest.length := by
  simp [advance]

theorem pastMark_eq (other : c.column = 0 → c.rest.head? ≠ some '\ufeff') : c.pastMark = c := by
  rw [pastMark, peek?_zero]
  exact if_neg fun mark => other mark.1 mark.2

theorem pastBlanks_eq {tabs : Bool} {cs : List Char} (split : c.rest = cs ++ rest)
    (blank : AreBlanks tabs cs) (stops : ∀ b ∈ rest.head?, isBlank b = false) :
    c.pastBlanks tabs = c.advance cs.length := by
  have all : ∀ b ∈ cs, (b = ' ' || (tabs && b = '\t')) = true := by
    intro b mem
    rcases blank b mem with rfl | ⟨tabs, rfl⟩ <;> simp_all
  have ends : ∀ b ∈ rest.head?, (b = ' ' || (tabs && b = '\t')) = false := by
    intro b mem
    have other := stops b mem
    simp only [isBlank, Bool.or_eq_false_iff] at other
    simp [other]
  rw [pastBlanks, span_eq split all ends]

theorem pastComment_eq {comment : List Char} (split : c.rest = comment ++ rest)
    (isComment : IsComment comment) (other : rest.head? ≠ some '#')
    (ends : endsLine rest.head? = true ∨ comment = []) :
    c.pastComment = c.advance comment.length := by
  rw [pastComment, peek?_zero, split]
  rcases isComment with rfl | ⟨first, noBreak⟩
  · rw [List.nil_append, if_neg other, List.length_nil, advance_zero]
  · have some : (comment ++ rest).head? = some '#' := by simp [first]
    have stops : ∀ b ∈ rest.head?, (!isBreak b) = false := by
      intro b mem
      rcases ends with ends | rfl
      · rw [Option.mem_def.mp mem] at ends
        simpa [endsLine] using ends
      · cases first
    rw [if_pos some, skipLine, span_eq split (by simpa using noBreak) stops]

end Cursor

/-! ## Passing over spacing -/

namespace Scan

variable {s : Scan} {rest : List Char}

def tabs (s : Scan) : Bool := s.inFlow || !s.keyAllowed

/-- The place of a scan after the blanks and the comment that stand next. -/
def lead (s : Scan) : Cursor := ((s.place.pastMark).pastBlanks s.tabs).pastComment

def atPlace (s : Scan) (place : Cursor) : Scan := { s with place }

/-- A scan on the next line. -/
def nextLine (s : Scan) (place : Cursor) : Scan :=
  { s with place, keyAllowed := !s.inFlow || s.keyAllowed }

theorem length_lead_le (s : Scan) : s.lead.rest.length ≤ s.place.rest.length := by
  have mark : s.place.pastMark.rest.length ≤ s.place.rest.length := by
    unfold Cursor.pastMark
    split
    · exact Cursor.length_rest_advance_le _ 1
    · exact Nat.le_refl _
  have comment : ∀ c : Cursor, c.pastComment.rest.length ≤ c.rest.length := by
    intro c
    unfold Cursor.pastComment
    split
    · exact c.length_rest_advance_le _
    · exact Nat.le_refl _
  have blanks : (s.place.pastMark.pastBlanks s.tabs).rest.length ≤ s.place.pastMark.rest.length :=
    Cursor.length_rest_advance_le _ _
  have all := comment (s.place.pastMark.pastBlanks s.tabs)
  unfold lead
  omega

theorem length_readBreak_lead_lt (ends : (s.lead.peek? 0).any isBreak) :
    s.lead.readBreak.2.rest.length < s.place.rest.length := by
  rw [Cursor.peek?_zero] at ends
  cases split : s.lead.rest with
  | nil => simp [split] at ends
  | cons b rest =>
    have isBreak : isBreak b = true := by simpa [split] using ends
    have shorter := s.lead.length_readBreak_lt split isBreak
    have before := s.length_lead_le
    omega

theorem skipToToken_eq (s : Scan) :
    s.skipToToken =
      if (s.lead.peek? 0).any isBreak then (s.nextLine s.lead.readBreak.2).skipToToken
      else { s with place := s.lead } := by
  rw [skipToToken]
  change (if (s.lead.peek? 0).any isBreak then
      if s.lead.readBreak.2.rest.length < s.place.rest.length then
        (s.nextLine s.lead.readBreak.2).skipToToken
      else s.nextLine s.lead.readBreak.2
    else { s with place := s.lead }) = _
  by_cases ends : (s.lead.peek? 0).any isBreak
  · rw [if_pos ends, if_pos ends, if_pos (length_readBreak_lead_lt ends)]
  · rw [if_neg ends, if_neg ends]

/-- Induction on the lines that a scan passes over. -/
theorem skipToToken_rec {motive : Scan → Prop}
    (line : ∀ s : Scan, (s.lead.peek? 0).any isBreak = true →
      motive (s.nextLine s.lead.readBreak.2) → motive s)
    (stop : ∀ s : Scan, ¬ (s.lead.peek? 0).any isBreak = true → motive s) (s : Scan) :
    motive s := by
  by_cases ends : (s.lead.peek? 0).any isBreak = true
  · have shorter := length_readBreak_lead_lt ends
    exact line s ends (skipToToken_rec line stop _)
  · exact stop s ends
termination_by s.place.rest.length
decreasing_by exact shorter

/-- Blanks where a scan stands can be passed over first. -/
theorem skipToToken_blanks {cs : List Char} (split : s.place.rest = cs ++ rest)
    (blank : AreBlanks s.tabs cs) :
    s.skipToToken = (s.atPlace (s.place.advance cs.length)).skipToToken := by
  cases cs with
  | nil =>
    rw [List.length_nil, Cursor.advance_zero]
    rfl
  | cons b cs =>
    have noMark : s.place.pastMark = s.place := by
      apply Cursor.pastMark_eq
      intro _
      rw [split]
      rcases blank b (by simp) with rfl | ⟨-, rfl⟩ <;> simp
    have noColumn : (s.place.advance (b :: cs).length).pastMark =
        s.place.advance (b :: cs).length := by
      apply Cursor.pastMark_eq
      intro start
      simp [Cursor.advance] at start
    have all : ∀ c ∈ b :: cs, (c = ' ' || (s.tabs && c = '\t')) = true := by
      intro c mem
      rcases blank c mem with rfl | ⟨tabs, rfl⟩
      · rfl
      · simp [tabs]
    have spans : s.place.pastBlanks s.tabs =
        (s.place.advance (b :: cs).length).pastBlanks s.tabs := by
      have after := Cursor.rest_advance split
      rw [Cursor.pastBlanks, Cursor.pastBlanks, Cursor.span, Cursor.span, split, after,
        List.takeWhile_append_of_pos all, Cursor.advance_advance, List.length_append]
    have same : (s.atPlace (s.place.advance (b :: cs).length)).lead = s.lead := by
      change ((s.place.advance (b :: cs).length).pastMark.pastBlanks s.tabs).pastComment = s.lead
      rw [noColumn, ← spans, lead, noMark]
    rw [skipToToken_eq, skipToToken_eq (s.atPlace _), same]
    rfl

theorem skipToToken_line {l : Line} (split : s.place.rest = l.text ++ rest)
    (blank : AreBlanks s.tabs l.blanks) (isComment : IsComment l.body) :
    s.skipToToken = (s.nextLine (l.after s.place)).skipToToken := by
  obtain ⟨b, first, ends, notBlank, notHash, notMark⟩ := l.ending.head_isBreak rest
  have split : s.place.rest = l.blanks ++ (l.body ++ (l.ending.text ++ rest)) := by
    simpa [Line.text] using split
  have left := Cursor.rest_advance split
  generalize here : s.place.advance l.blanks.length = place at left
  have head : ∀ b ∈ (l.body ++ (l.ending.text ++ rest)).head?,
      isBlank b = false ∧ b ≠ '\ufeff' := by
    intro d mem
    rcases isComment with none | ⟨hash, -⟩
    · rw [none, List.nil_append, first] at mem
      cases mem
      exact ⟨notBlank, notMark⟩
    · rw [List.head?_append, hash] at mem
      cases mem
      decide
  have lead : (s.atPlace place).lead = place.advance l.body.length := by
    have noMark : place.pastMark = place := by
      apply Cursor.pastMark_eq
      intro _ mark
      rw [left] at mark
      exact (head _ mark).2 rfl
    have noBlanks : place.pastBlanks s.tabs = place := by
      have none : AreBlanks s.tabs [] := List.forall_mem_nil _
      rw [Cursor.pastBlanks_eq (by simpa using left) none fun b mem => (head b mem).1,
        List.length_nil, Cursor.advance_zero]
    change (place.pastMark.pastBlanks s.tabs).pastComment = _
    rw [noMark, noBlanks]
    apply Cursor.pastComment_eq left isComment
    · rw [first]
      simpa using notHash
    · left
      rw [first]
      exact ends
  have after := Cursor.rest_advance left
  rw [skipToToken_blanks split blank, here, skipToToken_eq, lead, Cursor.peek?_zero, after, first,
    if_pos (by simpa using ends), ← here]
  rfl

/-- Spacing where a scan stands can be passed over first. -/
theorem skipToToken_spacing {sp : Spacing} (split : s.place.rest = sp.text ++ rest)
    (fits : sp.Fits s.tabs) :
    s.skipToToken = { s with
      place := sp.after s.place
      keyAllowed := s.keyAllowed || sp.broken && !s.inFlow }.skipToToken := by
  induction sp generalizing s with
  | blanks cs =>
    rw [skipToToken_blanks split fits]
    simp [atPlace, Spacing.broken, Spacing.after, Spacing.text]
  | line l next ih =>
    obtain ⟨blank, isComment, later⟩ := fits
    have split : s.place.rest = l.text ++ (next.text ++ rest) := by
      simpa [Spacing.text] using split
    have moved := ih (s := s.nextLine (l.after s.place)) (l.rest_after split) later.mono
    have allowed : (!s.inFlow || s.keyAllowed || next.broken && !s.inFlow) =
        (s.keyAllowed || !s.inFlow) := by
      cases s.inFlow <;> cases s.keyAllowed <;> simp
    rw [skipToToken_line split blank isComment, moved]
    simp only [nextLine, inFlow, Spacing.broken, Bool.true_and, Spacing.after] at allowed ⊢
    rw [allowed]

/-- A scan stays where a token starts, or at the end of the text. -/
theorem skipToToken_stop {comment : List Char} (split : s.place.rest = comment ++ rest)
    (isComment : IsComment comment) (starts : StartsToken rest)
    (ends : rest = [] ∨ comment = []) :
    s.skipToToken = s.atPlace (s.place.advance comment.length) := by
  have head : ∀ b ∈ (comment ++ rest).head?, isBlank b = false ∧ b ≠ '\ufeff' := by
    intro b mem
    rcases isComment with rfl | ⟨hash, -⟩
    · exact ⟨(starts b mem).1, (starts b mem).2.2.2⟩
    · rw [List.head?_append, hash] at mem
      cases mem
      decide
  have noMark : s.place.pastMark = s.place := by
    apply Cursor.pastMark_eq
    intro _ mark
    rw [split] at mark
    exact (head _ mark).2 rfl
  have noBlanks : s.place.pastBlanks s.tabs = s.place := by
    have none : AreBlanks s.tabs [] := List.forall_mem_nil _
    rw [Cursor.pastBlanks_eq (by simpa using split) none fun b mem => (head b mem).1,
      List.length_nil, Cursor.advance_zero]
  have lead : s.lead = s.place.advance comment.length := by
    rw [Scan.lead, noMark, noBlanks]
    apply Cursor.pastComment_eq split isComment
    · intro hash
      exact (starts _ hash).2.2.1 rfl
    · rcases ends with rfl | none
      · exact .inl rfl
      · exact .inr none
  have noBreak : (rest.head?).any isBreak = false := by
    cases split : rest.head? with
    | none => rfl
    | some b => simpa using (starts b split).2.1
  rw [skipToToken_eq, lead, Cursor.peek?_zero, Cursor.rest_advance split, noBreak]
  simp [atPlace]

/-- Nothing is passed over where a token starts. -/
theorem skipToToken_here (starts : StartsToken s.place.rest) : s.skipToToken = s := by
  have split : s.place.rest = [] ++ s.place.rest := rfl
  rw [skipToToken_stop split (.inl rfl) starts (.inr rfl), List.length_nil, Cursor.advance_zero]
  rfl

end Scan

/-! ## Gaps of scalars -/

namespace Gap

variable {limit : Int} {g : Gap} {c : Cursor} {rest : List Char}

theorem read_stop (stops : ∀ b ∈ c.rest.head?, isBlank b = false ∧ isBreak b = false) :
    read limit g c = some (g, c) := by
  unfold read
  split
  · rfl
  · rename_i b rest split
    obtain ⟨notBlank, noBreak⟩ := stops b (by simp [split])
    simp [notBlank, noBreak]

theorem first_addBlanks (cs : List Char) : (cs.foldl addBlank g).first = g.first := by
  induction cs generalizing g with
  | nil => rfl
  | cons b cs ih =>
    rw [List.foldl_cons, ih]
    unfold addBlank
    split <;> rfl

theorem read_blanks {cs : List Char} (split : c.rest = cs ++ rest)
    (blank : AreBlanks g.first.isNone cs) :
    read limit g c = read limit (cs.foldl addBlank g) (c.advance cs.length) := by
  induction cs generalizing c g with
  | nil => rw [List.length_nil, Cursor.advance_zero, List.foldl_nil]
  | cons b cs ih =>
    have step : read limit g c = read limit (g.addBlank b) (c.advance 1) := by
      have isBlank : isBlank b = true := blank.isBlank b (by simp)
      have noTab : ¬ (g.first.isSome ∧ b = '\t' ∧ (c.column : Int) < limit) := by
        rintro ⟨some, rfl, -⟩
        rcases blank '\t' (by simp) with space | ⟨none, -⟩
        · cases space
        · simp_all
      rw [read]
      split
      · simp_all
      · rename_i d rest' split'
        rw [split] at split'
        cases split'
        rw [if_pos isBlank, if_neg noTab]
    have later : AreBlanks (g.addBlank b).first.isNone cs := by
      have same : (g.addBlank b).first = g.first := first_addBlanks [b]
      rw [same]
      exact fun c mem => blank c (by simp [mem])
    have left : (c.advance 1).rest = cs ++ rest := by simp [Cursor.advance, split]
    rw [step, ih left later, Cursor.advance_advance, List.foldl_cons, List.length_cons,
      Nat.add_comm]

theorem read_break (ending : Break) (split : c.rest = ending.text ++ rest) :
    read limit g c = read limit (g.addBreak ['\n']) c.pastBreak := by
  obtain ⟨b, first, ends, notBlank, -, -⟩ := ending.head_isBreak rest
  obtain ⟨next, -, -⟩ := Cursor.readBreak_eq ending split
  rw [read]
  rw [← split] at first
  split
  · simp_all
  · rename_i d rest' split'
    rw [split'] at first
    cases first
    rw [if_neg (by simp [notBlank]), dif_pos ends, next]

end Gap

namespace Spacing

/-- What spacing adds to a gap. -/
def gapAfter (g : Gap) : Spacing → Gap
  | blanks cs => cs.foldl Gap.addBlank g
  | line l next => next.gapAfter ((l.blanks.foldl Gap.addBlank g).addBreak ['\n'])

/-- The gap that spacing makes in a scalar. -/
def gap (sp : Spacing) : Gap := sp.gapAfter .empty

theorem first_gapAfter (sp : Spacing) (g : Gap) :
    (sp.gapAfter g).first.isSome = (g.first.isSome || sp.broken) := by
  induction sp generalizing g with
  | blanks cs => simp [gapAfter, Gap.first_addBlanks, broken]
  | line l next ih =>
    have some : ((l.blanks.foldl Gap.addBlank g).addBreak ['\n']).first.isSome = true := by
      unfold Gap.addBreak
      split <;> rfl
    simp [gapAfter, ih, broken, some]

theorem gap_blanks (cs : List Char) : (blanks cs).gap = ⟨cs, none, []⟩ := by
  have general : ∀ before, cs.foldl Gap.addBlank ⟨before, none, []⟩ = ⟨before ++ cs, none, []⟩ := by
    induction cs with
    | nil => simp
    | cons b cs ih => simp [Gap.addBlank, ih]
  exact general []

theorem gap_eq_empty_iff {sp : Spacing} : sp.gap = .empty ↔ sp.text = [] := by
  cases sp with
  | blanks cs => simp [gap_blanks, Gap.empty, text]
  | line l next =>
    have some : ((line l next).gap).first.isSome = true := by simp [gap, first_gapAfter, broken]
    have more : (line l next).text ≠ [] := by
      cases h : l.ending <;> simp [text, Line.text, Break.text, h]
    refine ⟨fun same => ?_, fun same => absurd same more⟩
    rw [same] at some
    cases some

end Spacing

/-- The gap of a scalar takes in spacing without comments. -/
theorem Gap.read_spacing {limit : Int} {g : Gap} {c : Cursor} {rest : List Char} {sp : Spacing}
    (split : c.rest = sp.text ++ rest) (bare : sp.Bare) (fits : sp.Fits g.first.isNone)
    (stops : ∀ b ∈ rest.head?, isBlank b = false ∧ isBreak b = false) :
    read limit g c = some (sp.gapAfter g, sp.after c) := by
  induction sp generalizing g c with
  | blanks cs =>
    have after : (c.advance cs.length).rest = rest := Cursor.rest_advance split
    rw [← after] at stops
    exact (read_blanks split fits).trans (read_stop stops)
  | line l next ih =>
    obtain ⟨none, bare⟩ := bare
    obtain ⟨blank, -, later⟩ := fits
    have split : c.rest = l.text ++ (next.text ++ rest) := by simpa [Spacing.text] using split
    have after := l.rest_after split
    have split : c.rest = l.blanks ++ (l.ending.text ++ (next.text ++ rest)) := by
      simpa [Line.text, none] using split
    have here : l.after c = (c.advance l.blanks.length).pastBreak := by
      rw [Line.after, none, List.length_nil, Cursor.advance_zero]
    rw [read_blanks split blank, read_break l.ending (Cursor.rest_advance split), ← here,
      ih after bare later.mono]
    rfl

/-! ## Spacing up to a comment -/

namespace Spacing

/-- The spacing before the first comment. -/
def bare : Spacing → Spacing
  | blanks cs => blanks cs
  | line l next => if l.body = [] then line l next.bare else blanks l.blanks

/-- The text of the spacing from the first comment on. -/
def commented : Spacing → List Char
  | blanks _ => []
  | line l next =>
    if l.body = [] then next.commented else l.body ++ l.ending.text ++ next.text

theorem text_bare (sp : Spacing) : sp.text = sp.bare.text ++ sp.commented := by
  induction sp with
  | blanks cs => simp [bare, commented, text]
  | line l next ih =>
    unfold bare commented
    split
    · simp [text, ← ih]
    · simp [text, Line.text]

theorem bare_bare (sp : Spacing) : sp.bare.Bare := by
  induction sp with
  | blanks cs => trivial
  | line l next ih =>
    unfold bare
    split
    · rename_i none
      exact ⟨none, ih⟩
    · trivial

theorem Fits.bare {sp : Spacing} {tabs : Bool} (fits : sp.Fits tabs) : sp.bare.Fits tabs := by
  induction sp generalizing tabs with
  | blanks cs => exact fits
  | line l next ih =>
    unfold Spacing.bare
    split
    · exact ⟨fits.1, fits.2.1, ih fits.2.2⟩
    · exact fits.1

/-- Either there is no comment, or what is left starts with one. -/
theorem commented_cases {sp : Spacing} {tabs : Bool} (fits : sp.Fits tabs) :
    sp.bare = sp ∧ sp.commented = [] ∨ sp.commented.head? = some '#' := by
  induction sp generalizing tabs with
  | blanks cs => exact .inl ⟨rfl, rfl⟩
  | line l next ih =>
    unfold bare commented
    split
    · rcases ih fits.2.2 with ⟨same, none⟩ | hash
      · exact .inl ⟨by rw [same], none⟩
      · exact .inr hash
    · rename_i comment
      rcases fits.2.1 with none | ⟨hash, -⟩
      · exact absurd none comment
      · right
        simp [hash]

end Spacing

end Spindle.Yaml
