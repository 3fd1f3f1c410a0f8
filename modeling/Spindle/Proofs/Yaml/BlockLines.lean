import Spindle.Proofs.Yaml.Marks

/-!
# Lines of block scalars

A block scalar has its text on lines of its own, told by their indentation. What follows it may be
taken in as well as long as no token starts there, and this changes nothing for later tokens.
-/

namespace Spindle.Yaml

/-! ## Empty lines -/

variable {indent : Option Nat} {widest : Nat} {breaks rest : List Char} {c : Cursor} {k : Nat}

theorem takeWhile_spaces (stops : rest.head? ≠ some ' ') :
    (List.replicate k ' ' ++ rest).takeWhile (· = ' ') = List.replicate k ' ' := by
  rw [List.takeWhile_append_of_pos (by simp)]
  cases rest with
  | nil => simp
  | cons b rest =>
    have other : b ≠ ' ' := by simpa using stops
    simp [other]

/-- How many spaces are passed over at the start of a line. -/
def passed (indent : Option Nat) (spaces : Nat) : Nat :=
  match indent with
  | none => spaces
  | some n => min spaces n

theorem readBreaks_eq (start : c.column = 0) (split : c.rest = List.replicate k ' ' ++ rest)
    (stops : rest.head? ≠ some ' ') :
    readBreaks indent widest breaks c =
      if (c.advance (passed indent k)).peek? 0 = some '\t' ∧ indent.all (passed indent k < ·) then
        none
      else if ((c.advance (passed indent k)).peek? 0).any isBreak then
        if (c.advance (passed indent k)).readBreak.2.rest.length < c.rest.length then
          readBreaks indent (max widest (passed indent k))
            (breaks ++ (c.advance (passed indent k)).readBreak.1)
            (c.advance (passed indent k)).readBreak.2
        else none
      else some (max widest (passed indent k), breaks, c.advance (passed indent k)) := by
  have spaces : (c.rest.takeWhile (· = ' ')).length = k := by
    rw [split, takeWhile_spaces stops, List.length_replicate]
  have column : ∀ m, (c.advance m).column = m := by
    intro m
    simp [Cursor.advance, start]
  rw [readBreaks.eq_def]
  cases indent with
  | none =>
    simp only [spaces, column, passed]
    congr
  | some n =>
    simp only [spaces, column, start, Nat.sub_zero, passed]
    congr

/-- An empty line is passed over. -/
theorem readBreaks_break (ending : Break) (start : c.column = 0)
    (split : c.rest = List.replicate k ' ' ++ (ending.text ++ rest))
    (narrow : ∀ n ∈ indent, k ≤ n) :
    readBreaks indent widest breaks c =
      readBreaks indent (max widest k) (breaks ++ ['\n']) (c.advance k).pastBreak := by
  obtain ⟨b, first, isBreak, notBlank, -⟩ := ending.head_isBreak rest
  have notSpace : (ending.text ++ rest).head? ≠ some ' ' := by
    rw [first]
    rintro ⟨⟩
    cases notBlank
  have notTab : b ≠ '\t' := by
    rintro rfl
    cases notBlank
  have all : passed indent k = k := by
    cases indent with
    | none => rfl
    | some n => exact Nat.min_eq_left (narrow n rfl)
  have left : (c.advance k).rest = ending.text ++ rest := by
    have := Cursor.rest_advance split
    rwa [List.length_replicate] at this
  obtain ⟨next, after, -⟩ := Cursor.readBreak_eq ending left
  have shorter : (c.advance k).pastBreak.rest.length < c.rest.length := by
    have : 0 < ending.text.length := by cases ending <;> decide
    rw [after, split]
    simp only [List.length_append, List.length_replicate]
    omega
  rw [readBreaks_eq start split notSpace, all, Cursor.peek?_zero, left, first]
  simp [notTab, isBreak, next, shorter]

theorem Cursor.rest_advance_spaces (split : c.rest = List.replicate k ' ' ++ rest) {n : Nat}
    (le : n ≤ k) : (c.advance n).rest = List.replicate (k - n) ' ' ++ rest := by
  have split : c.rest = List.replicate n ' ' ++ (List.replicate (k - n) ' ' ++ rest) := by
    rw [split, ← List.append_assoc, List.replicate_append_replicate]
    congr 2
    omega
  have := Cursor.rest_advance split
  rwa [List.length_replicate] at this

/-- A line with text ends the empty lines; its indentation is passed over. -/
theorem readBreaks_text (widest : Nat) (breaks : List Char) {n : Nat} (start : c.column = 0)
    (split : c.rest = List.replicate k ' ' ++ rest)
    (stops : rest.head? ≠ some ' ') (further : n ≤ k)
    (text : n = k → ∀ b ∈ rest.head?, isBreak b = false) :
    readBreaks (some n) widest breaks c = some (max widest n, breaks, c.advance n) := by
  have passes : passed (some n) k = n := Nat.min_eq_right further
  have left := Cursor.rest_advance_spaces split further
  have noBreak : ((c.advance n).peek? 0).any isBreak = false := by
    rw [Cursor.peek?_zero, left]
    rcases Nat.lt_or_eq_of_le further with less | same
    · obtain ⟨m, more⟩ : ∃ m, k - n = m + 1 := ⟨k - n - 1, by omega⟩
      rw [more]
      rfl
    · cases first : rest.head? with
      | none => simp [same, first]
      | some b => simpa [same, first] using text same b first
  rw [readBreaks_eq start split stops, passes, noBreak]
  simp

/-- So does a token to the left of them. -/
theorem readBreaks_token (indent : Option Nat) (widest : Nat) (breaks : List Char)
    (start : c.column = 0) (split : c.rest = List.replicate k ' ' ++ rest)
    (stops : ∀ b ∈ rest.head?, isBlank b = false ∧ isBreak b = false)
    (outside : ∀ n ∈ indent, k ≤ n) :
    readBreaks indent widest breaks c = some (max widest k, breaks, c.advance k) := by
  have passes : passed indent k = k := by
    cases indent with
    | none => rfl
    | some n => exact Nat.min_eq_left (outside n rfl)
  have left : (c.advance k).rest = rest := by simpa using Cursor.rest_advance_spaces split k.le_refl
  have notSpace : rest.head? ≠ some ' ' := by
    intro first
    have := (stops _ first).1
    cases this
  have noTab : (c.advance k).peek? 0 ≠ some '\t' := by
    rw [Cursor.peek?_zero, left]
    intro first
    have := (stops _ first).1
    cases this
  have noBreak : ((c.advance k).peek? 0).any isBreak = false := by
    rw [Cursor.peek?_zero, left]
    cases first : rest.head? with
    | none => rfl
    | some b => exact (stops b first).2
  rw [readBreaks_eq start split notSpace, passes, noBreak, if_neg fun tab => noTab tab.1]
  simp

/-! ## Lines -/

/-- Whether the reading of lines that are indented by `indent` or more goes on from the start of a
line to a place. -/
def Passes (fold : Bool) (indent : Nat) (c place : Cursor) : Prop :=
  ∀ widest breaks, ∃ w bs next, readBreaks (some indent) widest breaks c = some (w, bs, next) ∧
    next.rest.length ≤ c.rest.length ∧ ∀ t, ∃ t', readLines fold indent t next = some (t', place)

variable {fold : Bool} {n : Nat} {place : Cursor} {body : List Char}

theorem Passes.empty {ending : Break} (start : c.column = 0)
    (split : c.rest = List.replicate k ' ' ++ (ending.text ++ rest)) (narrow : k ≤ n)
    (later : Passes fold n (c.advance k).pastBreak place) : Passes fold n c place := by
  intro widest breaks
  have left : (c.advance k).rest = ending.text ++ rest := by
    simpa using Cursor.rest_advance_spaces split k.le_refl
  obtain ⟨-, after, -⟩ := Cursor.readBreak_eq ending left
  obtain ⟨w, bs, next, reads, shorter, lines⟩ := later (max widest k) (breaks ++ ['\n'])
  refine ⟨w, bs, next, ?_, ?_, lines⟩
  · rw [readBreaks_break ending start split (by rintro m ⟨⟩; exact narrow), reads]
  · rw [after] at shorter
    rw [split]
    simp only [List.length_append]
    omega

theorem readLines_stop {t : BlockText} (stops : c.column ≠ n ∨ c.rest = []) :
    readLines fold n t c = some (t, c) := by
  rw [readLines, if_neg]
  rintro ⟨column, more⟩
  rcases stops with other | none
  · exact other column
  · exact more none

theorem readLines_line {t : BlockText} {first : List Char} {after : Cursor} {w : Nat}
    {bs : List Char} {next : Cursor} (column : c.column = n) (more : c.rest ≠ [])
    (ends : ((c.span fun b => !isBreak b).2).readBreak = (first, after))
    (reads : readBreaks (some n) 0 [] after = some (w, bs, next))
    (shorter : next.rest.length < c.rest.length)
    (later : ∀ t, ∃ t', readLines fold n t next = some (t', place)) :
    ∃ t', readLines fold n t c = some (t', place) := by
  rw [readLines, if_pos ⟨column, more⟩]
  simp only [ends, reads, if_pos shorter]
  exact later _

theorem span_line (split : c.rest = List.replicate k ' ' ++ (body ++ rest))
    (noBreak : ∀ b ∈ body, isBreak b = false) (ends : ∀ b ∈ rest.head?, isBreak b = true)
    (further : n ≤ k) :
    ((c.advance n).span fun b => !isBreak b).2 = (c.advance k).advance body.length := by
  have split' : (c.advance n).rest = (List.replicate (k - n) ' ' ++ body) ++ rest := by
    rw [Cursor.rest_advance_spaces split further, List.append_assoc]
  have all : ∀ d ∈ List.replicate (k - n) ' ' ++ body, (!isBreak d) = true := by
    intro d mem
    rcases List.mem_append.mp mem with mem | mem
    · rw [List.eq_of_mem_replicate mem]
      rfl
    · simp [noBreak d mem]
  have stops : ∀ d ∈ rest.head?, (!isBreak d) = false := by
    intro d mem
    simp [ends d mem]
  have sum : n + (k - n + body.length) = k + body.length := by omega
  rw [Cursor.span_eq split' all stops, Cursor.advance_advance, Cursor.advance_advance,
    List.length_append, List.length_replicate, sum]

/-- A line of text. -/
theorem Passes.line {ending : Break} (start : c.column = 0)
    (split : c.rest = List.replicate k ' ' ++ (body ++ (ending.text ++ rest)))
    (noBreak : ∀ b ∈ body, isBreak b = false) (stops : body.head? ≠ some ' ') (further : n ≤ k)
    (nonempty : body ≠ [] ∨ n < k)
    (later : Passes fold n ((c.advance k).advance body.length).pastBreak place) :
    Passes fold n c place := by
  intro widest breaks
  obtain ⟨b, first, isBreak', notBlank, -⟩ := ending.head_isBreak rest
  have notSpace : (body ++ (ending.text ++ rest)).head? ≠ some ' ' := by
    cases body with
    | nil =>
      rw [List.nil_append, first]
      rintro ⟨⟩
      cases notBlank
    | cons d body => exact stops
  have text : n = k → ∀ d ∈ (body ++ (ending.text ++ rest)).head?, isBreak d = false := by
    intro same d mem
    have some' : body ≠ [] := nonempty.resolve_right (by omega)
    obtain ⟨e, body, rfl⟩ := List.exists_cons_of_ne_nil some'
    cases mem
    exact noBreak _ (by simp)
  have reads := readBreaks_text widest breaks start split notSpace further
    text
  refine ⟨_, _, _, reads, c.length_rest_advance_le n, fun t => ?_⟩
  have left := Cursor.rest_advance_spaces split further
  have spans : ((c.advance n).span fun b => !isBreak b).2 = (c.advance k).advance body.length := by
    refine span_line split noBreak (fun d mem => ?_) further
    rw [first] at mem
    cases mem
    exact isBreak'
  have atBreak : ((c.advance k).advance body.length).rest = ending.text ++ rest :=
    Cursor.rest_advance (by simpa using Cursor.rest_advance_spaces split k.le_refl)
  obtain ⟨next, after, -⟩ := Cursor.readBreak_eq ending atBreak
  obtain ⟨w, bs, place', reads', shorter, lines⟩ := later 0 []
  refine readLines_line ?_ ?_ (by rw [spans]; exact next) reads' ?_ lines
  · simp [Cursor.advance, start]
  · rw [left]
    cases ending <;> simp [Break.text]
  · rw [after] at shorter
    have : 0 < ending.text.length := by cases ending <;> decide
    rw [left]
    simp only [List.length_append]
    omega

theorem readBreaks_nil (none : c.rest = []) :
    readBreaks indent widest breaks c = some (max widest c.column, breaks, c) := by
  have noChar : c.peek? 0 = .none := by rw [Cursor.peek?_zero, none]; rfl
  rw [readBreaks.eq_def]
  cases indent <;> simp [none, Cursor.advance_zero, noChar]

/-- The last line of text, where no break follows. -/
theorem Passes.last (start : c.column = 0) (split : c.rest = List.replicate k ' ' ++ body)
    (noBreak : ∀ b ∈ body, isBreak b = false) (stops : body.head? ≠ some ' ') (further : n ≤ k)
    (nonempty : body ≠ [] ∨ n < k) :
    Passes fold n c ((c.advance k).advance body.length) := by
  intro widest breaks
  have text : n = k → ∀ d ∈ body.head?, isBreak d = false :=
    fun _ d mem => noBreak d (List.mem_of_mem_head? mem)
  have reads := readBreaks_text widest breaks start split stops further text
  refine ⟨_, _, _, reads, c.length_rest_advance_le n, fun t => ?_⟩
  have left := Cursor.rest_advance_spaces split further
  have atEnd : ((c.advance k).advance body.length).rest = [] := by
    have left : (c.advance k).rest = body ++ [] := by
      simpa using Cursor.rest_advance_spaces split k.le_refl
    exact Cursor.rest_advance left
  have spans : ((c.advance n).span fun b => !isBreak b).2 = (c.advance k).advance body.length := by
    have split' : c.rest = List.replicate k ' ' ++ (body ++ []) := by rw [split, List.append_nil]
    exact span_line split' noBreak (by simp) further
  have ends : ((c.advance n).span fun b => !isBreak b).2.readBreak =
      ([], (c.advance k).advance body.length) := by
    rw [spans, Cursor.readBreak, atEnd]
  refine readLines_line ?_ ?_ ends (readBreaks_nil atEnd) ?_
    fun t => ⟨t, readLines_stop (.inr atEnd)⟩
  · simp [Cursor.advance, start]
  · rw [left]
    rcases nonempty with more | more
    · simp [more]
    · have : k - n ≠ 0 := by omega
      simp [this]
  · rw [atEnd, left]
    simp only [List.length_nil, List.length_append, List.length_replicate]
    rcases nonempty with more | more
    · have := List.length_pos_iff.mpr more
      omega
    · omega

/-- A token to the left, or the end of the text. -/
theorem Passes.token (start : c.column = 0) (split : c.rest = List.replicate k ' ' ++ rest)
    (stops : ∀ b ∈ rest.head?, isBlank b = false ∧ isBreak b = false)
    (outside : k < n ∨ k = n ∧ rest = []) : Passes fold n c (c.advance k) := by
  intro widest breaks
  have reads := readBreaks_token (some n) widest breaks start split
    stops (by rintro m ⟨⟩; omega)
  refine ⟨_, _, _, reads, c.length_rest_advance_le k, fun t => ⟨t, readLines_stop ?_⟩⟩
  rcases outside with less | ⟨-, none⟩
  · left
    simp only [Cursor.advance, start]
    omega
  · right
    simpa [none] using Cursor.rest_advance_spaces split k.le_refl

/-! ## What follows -/

theorem AreBlanks.eq_replicate {cs : List Char} (blank : AreBlanks false cs) :
    cs = List.replicate cs.length ' ' := by
  apply List.eq_replicate_iff.mpr
  refine ⟨rfl, fun b mem => ?_⟩
  rcases blank b mem with same | ⟨no, -⟩
  · exact same
  · cases no

/-- Whether a scan where keys may start goes on from both places in the same way. -/
def SameSkip (c place : Cursor) : Prop :=
  place.rest.length ≤ c.rest.length ∧ ∀ t : Scan, t.inFlow = false → t.keyAllowed = true →
    (t.atPlace c).skipToToken = (t.atPlace place).skipToToken

theorem SameSkip.refl (c : Cursor) : SameSkip c c := ⟨Nat.le_refl _, fun _ _ _ => rfl⟩

theorem SameSkip.blanks {cs : List Char} (split : c.rest = cs ++ rest)
    (blank : AreBlanks false cs) :
    SameSkip c (c.advance cs.length) := by
  refine ⟨c.length_rest_advance_le _, fun t block allowed => ?_⟩
  exact Scan.skipToToken_blanks (s := t.atPlace c) split blank.mono

theorem SameSkip.line {l : Line} (split : c.rest = l.text ++ rest)
    (blank : AreBlanks false l.blanks) (isComment : IsComment l.body)
    (later : SameSkip (l.after c) place) : SameSkip c place := by
  refine ⟨?_, fun t block allowed => ?_⟩
  · have := later.1
    rw [l.rest_after split] at this
    rw [split, List.length_append]
    omega
  · have same : (t.atPlace c).nextLine (l.after c) = t.atPlace (l.after c) := by
      simp only [Scan.nextLine, Scan.atPlace, allowed, Bool.or_true]
    rw [Scan.skipToToken_line (s := t.atPlace c) split blank.mono isComment]
    exact (congrArg Scan.skipToToken same).trans (later.2 t block allowed)

/-- The break at the end of a line without more text. -/
theorem SameSkip.break {ending : Break} (split : c.rest = ending.text ++ rest)
    (later : SameSkip c.pastBreak place) : SameSkip c place := by
  have split : c.rest = (⟨[], [], ending⟩ : Line).text ++ rest := by simpa [Line.text] using split
  refine .line split (List.forall_mem_nil _) (.inl rfl) ?_
  simpa [Line.after, Cursor.advance_zero] using later

theorem SameSkip.comment {comment : List Char} (split : c.rest = comment)
    (isComment : IsComment comment) : SameSkip c (c.advance comment.length) := by
  refine ⟨c.length_rest_advance_le _, fun t block allowed => ?_⟩
  have split : c.rest = comment ++ [] := by rw [split, List.append_nil]
  have left : (c.advance comment.length).rest = [] ++ [] := Cursor.rest_advance split
  have stops := Scan.skipToToken_stop (s := t.atPlace c) split isComment .nil (.inl rfl)
  have stays := Scan.skipToToken_stop (s := t.atPlace (c.advance comment.length)) left (.inl rfl)
    .nil (.inl rfl)
  rw [stops, stays, List.length_nil, Cursor.advance_zero]
  rfl

theorem SameSkip.trans {c' : Cursor} (first : SameSkip c c') (second : SameSkip c' place) :
    SameSkip c place :=
  ⟨Nat.le_trans second.1 first.1, fun t block allowed =>
    (first.2 t block allowed).trans (second.2 t block allowed)⟩

/-- What can stand on the lines after a block scalar: a token at most at a column, or the end of
the text. -/
def EndsLines (m : Nat) (sp : Spacing) (rest : List Char) : Prop :=
  sp.Fits false ∧ (StartsToken rest ∧ sp.column 0 ≤ m ∨ IsComment rest)

/-- The line of the next token, or the last line of the text with a comment or without. -/
theorem passes_blanks (fold : Bool) {cs : List Char} {m : Nat} (start : c.column = 0)
    (split : c.rest = cs ++ rest) (ends : EndsLines m (.blanks cs) rest) (inside : m < n) :
    ∃ place, Passes fold n c place ∧ SameSkip c place := by
  obtain ⟨fits, ends⟩ := ends
  have same := SameSkip.blanks split fits
  have split : c.rest = List.replicate cs.length ' ' ++ rest := by
    rw [split, ← AreBlanks.eq_replicate fits]
  have left : (c.advance cs.length).rest = rest := by
    simpa using Cursor.rest_advance_spaces split cs.length.le_refl
  rcases ends with ⟨starts, column⟩ | isComment
  · have column : cs.length ≤ m := by simpa [Spacing.column] using column
    exact ⟨_, .token start split (fun b mem => ⟨(starts b mem).1, (starts b mem).2.1⟩)
      (.inl (by omega)), same⟩
  · -- A comment that is not further in than the scalar is skipped as one, else it is read as text.
    by_cases outside : cs.length < n ∨ cs.length = n ∧ rest = []
    · exact ⟨_, .token start split isComment.head outside, same⟩
    · refine ⟨_, .last start split isComment.noBreak isComment.head_ne_space (by omega) ?_,
        same.trans (.comment left isComment)⟩
      by_cases none : rest = []
      · have : cs.length ≠ n := fun same => outside (.inr ⟨same, none⟩)
        exact .inr (by omega)
      · exact .inl none

/-- A line without tokens, before lines that are passed over. -/
theorem passes_line {l : Line} (start : c.column = 0) (split : c.rest = l.text ++ rest)
    (blank : AreBlanks false l.blanks) (isComment : IsComment l.body)
    (passes : Passes fold n (l.after c) place) (same : SameSkip (l.after c) place) :
    ∃ place, Passes fold n c place ∧ SameSkip c place := by
  have whole := SameSkip.line split blank isComment same
  have spaces : c.rest = List.replicate l.blanks.length ' ' ++
      (l.body ++ (l.ending.text ++ rest)) := by
    rw [split, ← blank.eq_replicate]
    simp [Line.text]
  by_cases outside : l.blanks.length < n ∧ l.body ≠ []
  · have split : c.rest = l.blanks ++ (l.body ++ (l.ending.text ++ rest)) := by
      rw [spaces, ← blank.eq_replicate]
    refine ⟨_, .token start spaces ?_ (.inl outside.1), .blanks split blank⟩
    intro b mem
    obtain ⟨d, body, text⟩ := List.exists_cons_of_ne_nil outside.2
    rw [text] at mem
    exact isComment.head b (by rw [text]; exact mem)
  by_cases empty : l.body = [] ∧ l.blanks.length ≤ n
  · have here : l.after c = (c.advance l.blanks.length).pastBreak := by
      rw [Line.after, empty.1, List.length_nil, Cursor.advance_zero]
    rw [empty.1, List.nil_append] at spaces
    rw [here] at passes
    exact ⟨place, .empty start spaces empty.2 passes, whole⟩
  · have further : n ≤ l.blanks.length ∧ (l.body ≠ [] ∨ n < l.blanks.length) := by
      by_cases none : l.body = []
      · have wide : ¬ l.blanks.length ≤ n := fun narrow => empty ⟨none, narrow⟩
        exact ⟨by omega, .inr (by omega)⟩
      · have wide : ¬ l.blanks.length < n := fun narrow => outside ⟨narrow, none⟩
        exact ⟨by omega, .inl none⟩
    exact ⟨place, .line start spaces isComment.noBreak isComment.head_ne_space further.1 further.2
      passes, whole⟩

/-- The lines after a block scalar are passed over with it, or they are no part of it. -/
theorem passes_spacing (fold : Bool) {sp : Spacing} {m : Nat} (start : c.column = 0)
    (split : c.rest = sp.text ++ rest) (ends : EndsLines m sp rest) (inside : m < n) :
    ∃ place, Passes fold n c place ∧ SameSkip c place := by
  induction sp generalizing c with
  | blanks cs => exact passes_blanks fold start split ends inside
  | line l next ih =>
    obtain ⟨⟨blank, isComment, later⟩, ends⟩ := ends
    have split : c.rest = l.text ++ (next.text ++ rest) := by simpa [Spacing.text] using split
    obtain ⟨after, column⟩ := l.after_form split
    obtain ⟨place, passes, same⟩ :=
      ih column after ⟨later, by simpa [Spacing.column] using ends⟩
    exact passes_line start split blank isComment passes same

end Spindle.Yaml
