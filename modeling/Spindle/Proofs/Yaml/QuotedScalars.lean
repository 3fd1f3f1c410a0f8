import Spindle.Proofs.Yaml.PlainScalars

/-!
# Quoted scalars

A quoted scalar is made of characters and escapes, with gaps that are folded where a line ends.
-/

namespace Spindle.Yaml

/-- What stands after a backslash, and the character it stands for. -/
inductive IsEscape : List Char → Char → Prop
  | letter {l c : Char} : ofLetter? l = some c → IsEscape [l] c
  | number {l : Char} {digits : List Char} {n : Nat} : escapeDigits? l = some digits.length →
      hexNumber? digits = some n → n.isValidChar → IsEscape (l :: digits) (Char.ofNat n)

/-- A character of a quoted scalar as it is written. -/
inductive Piece where
  | char (c : Char)
  | escape (code : List Char) (c : Char)

namespace Piece

/-- Single quotes are doubled between single quotes. -/
def text (single : Bool) : Piece → List Char
  | char c => if single = true ∧ c = '\'' then [c, c] else [c]
  | escape code _ => '\\' :: code

def value : Piece → Char
  | char c => c
  | escape _ c => c

/-- Blanks and line breaks make gaps instead. -/
def Fits (single : Bool) : Piece → Prop
  | char c => isBlank c = false ∧ isBreak c = false ∧ (single = false → c ≠ '"' ∧ c ≠ '\\')
  | escape code c => single = false ∧ IsEscape code c

def spell (single : Bool) (ps : List Piece) : List Char := ps.flatMap (text single)

end Piece

theorem escapeDigits?_eq_none {l c : Char} (letter : ofLetter? l = some c) :
    escapeDigits? l = none := by
  unfold escapeDigits?
  split
  · cases letter
  · cases letter
  · cases letter
  · rfl

theorem IsEscape.readEscape {code : List Char} {c : Char} (escape : IsEscape code c)
    (rest : List Char) : readEscape (code ++ rest) = some (c, code.length) := by
  cases escape with
  | letter letter => simp [Yaml.readEscape, escapeDigits?_eq_none letter, letter]
  | number count number valid => simp [Yaml.readEscape, count, number, valid]

theorem isBreak_eq_false_of_letter {l c : Char} (letter : ofLetter? l = some c) :
    isBreak l = false := by
  unfold ofLetter? at letter
  split at letter <;> first | rfl | cases letter

theorem isBreak_eq_false_of_digits {l : Char} {n : Nat} (count : escapeDigits? l = some n) :
    isBreak l = false := by
  unfold escapeDigits? at count
  split at count <;> first | rfl | cases count

theorem IsEscape.head {code : List Char} {c : Char} (escape : IsEscape code c) :
    ∃ l rest, code = l :: rest ∧ isBreak l = false := by
  cases escape with
  | letter letter => exact ⟨_, _, rfl, isBreak_eq_false_of_letter letter⟩
  | number count number valid => exact ⟨_, _, rfl, isBreak_eq_false_of_digits count⟩

/-! ## Runs -/

variable {single : Bool} {c : Cursor} {read rest : List Char}

theorem quotedRun_go_piece {p : Piece} {fuel : Nat} (fits : p.Fits single)
    (split : c.rest = p.text single ++ rest) :
    quotedRun.go single (fuel + 1) read c =
      quotedRun.go single fuel (p.value :: read) (c.advance (p.text single).length) := by
  cases p with
  | char b =>
    obtain ⟨noBlank, noBreak, plain⟩ := fits
    by_cases quote : single = true ∧ b = '\''
    · obtain ⟨rfl, rfl⟩ := quote
      have split : c.rest = '\'' :: '\'' :: rest := by simpa [Piece.text] using split
      rw [quotedRun.go, split]
      simp [Piece.value, Piece.text, noBlank, noBreak]
    · have split : c.rest = b :: rest := by simpa [Piece.text, quote] using split
      rw [quotedRun.go, split]
      cases single with
      | true =>
        have other : b ≠ '\'' := fun same => quote ⟨rfl, same⟩
        simp [Piece.value, Piece.text, noBlank, noBreak, other]
      | false =>
        obtain ⟨notQuote, notSlash⟩ := plain rfl
        simp [Piece.value, Piece.text, noBlank, noBreak, notQuote, notSlash]
  | escape code b =>
    obtain ⟨rfl, escape⟩ := fits
    have split : c.rest = '\\' :: (code ++ rest) := by simpa [Piece.text] using split
    obtain ⟨l, tail, head, noBreak⟩ := escape.head
    have next : (code.head?.or rest.head?).any isBreak = false := by simp [head, noBreak]
    have reads := escape.readEscape rest
    rw [quotedRun.go, split]
    simp [next, reads, Piece.value, Piece.text, isBlank, isBreak, isSeparator]

theorem quotedRun_go_pieces {ps : List Piece} {fuel : Nat} (fits : ∀ p ∈ ps, p.Fits single)
    (split : c.rest = Piece.spell single ps ++ rest) (enough : ps.length ≤ fuel) :
    quotedRun.go single fuel read c =
      quotedRun.go single (fuel - ps.length) ((ps.map Piece.value).reverse ++ read)
        (c.advance (Piece.spell single ps).length) := by
  induction ps generalizing fuel read c with
  | nil => simp [Piece.spell, Cursor.advance_zero]
  | cons p ps ih =>
    obtain ⟨fuel, rfl⟩ : ∃ n, fuel = n + 1 := by
      cases fuel with
      | zero => simp at enough
      | succ n => exact ⟨n, rfl⟩
    have split : c.rest = p.text single ++ (Piece.spell single ps ++ rest) := by
      simpa [Piece.spell] using split
    have left := Cursor.rest_advance split
    have fewer : ps.length ≤ fuel := by simpa using enough
    rw [quotedRun_go_piece (fits p (by simp)) split,
      ih (fun q mem => fits q (by simp [mem])) left fewer, Cursor.advance_advance]
    simp [Piece.spell]

theorem length_le_spell (single : Bool) (ps : List Piece) :
    ps.length ≤ (Piece.spell single ps).length := by
  induction ps with
  | nil => simp
  | cons p ps ih =>
    have some : 0 < (p.text single).length := by
      cases p with
      | char b => by_cases quote : single = true ∧ b = '\'' <;> simp [Piece.text, quote]
      | escape code b => simp [Piece.text]
    unfold Piece.spell at ih ⊢
    rw [List.flatMap_cons, List.length_append, List.length_cons]
    omega

/-- A run goes up to the closing quote or to the next gap. -/
theorem quotedRun_pieces {ps : List Piece} {b : Char} {next : RunEnd} {place : Cursor}
    (fits : ∀ p ∈ ps, p.Fits single) (split : c.rest = Piece.spell single ps ++ (b :: rest))
    (ends : ∀ (fuel : Nat) (read : List Char) (d : Cursor), d.rest = b :: rest →
      d = c.advance (Piece.spell single ps).length →
      quotedRun.go single (fuel + 1) read d = some (read.reverse, next, place)) :
    quotedRun single c = some (ps.map Piece.value, next, place) := by
  have enough : ps.length ≤ c.rest.length := by
    have := length_le_spell single ps
    rw [split, List.length_append]
    omega
  obtain ⟨fuel, left⟩ : ∃ fuel, c.rest.length - ps.length = fuel + 1 := by
    have := length_le_spell single ps
    refine ⟨c.rest.length - ps.length - 1, ?_⟩
    rw [split, List.length_append, List.length_cons]
    omega
  rw [quotedRun, quotedRun_go_pieces fits split enough, left,
    ends fuel _ _ (Cursor.rest_advance split) rfl]
  simp

theorem quotedRun_quote {ps : List Piece} {quote : Char} (fits : ∀ p ∈ ps, p.Fits single)
    (isQuote : quote = if single then '\'' else '"')
    (split : c.rest = Piece.spell single ps ++ (quote :: rest))
    (follows : single = true → rest.head? ≠ some '\'') :
    quotedRun single c =
      some (ps.map Piece.value, .quote, (c.advance (Piece.spell single ps).length).advance 1) := by
  apply quotedRun_pieces fits split
  intro fuel read d left here
  rw [quotedRun.go, left, ← here]
  cases single with
  | true =>
    obtain rfl : quote = '\'' := isQuote
    simp [follows rfl, isBlank, isBreak, isSeparator]
  | false =>
    obtain rfl : quote = '"' := isQuote
    simp [isBlank, isBreak, isSeparator]

theorem quotedRun_gap {ps : List Piece} {b : Char} (fits : ∀ p ∈ ps, p.Fits single)
    (split : c.rest = Piece.spell single ps ++ (b :: rest))
    (blank : isBlank b = true ∨ isBreak b = true) :
    quotedRun single c =
      some (ps.map Piece.value, .gap, c.advance (Piece.spell single ps).length) := by
  apply quotedRun_pieces fits split
  intro fuel read d left here
  have blank : (isBlank b || isBreak b) = true := by simpa using blank
  rw [quotedRun.go, left, ← here]
  simp [blank]

/-! ## Reading -/

namespace Words

variable {α : Type}

def mapRuns (f : List α → List Char) : Words α → Words Char
  | last w => last (f w)
  | more w sp rest => more (f w) sp (rest.mapRuns f)

def isLast : Words α → Bool
  | last _ => true
  | more _ _ _ => false

/-- The words as they are written between quotes. -/
def spelled (single : Bool) (ws : Words Piece) : Words Char := ws.mapRuns (Piece.spell single)

def values (ws : Words Piece) : Words Char := ws.mapRuns (List.map Piece.value)

/-- Whether the words make a quoted scalar: later lines are indented, and every gap is taken
whole. -/
def FitsQuoted (single : Bool) : Words Piece → Prop
  | last ps => ∀ p ∈ ps, p.Fits single
  | more ps sp rest =>
    (∀ p ∈ ps, p.Fits single) ∧ (sp.Bare ∧ sp.Fits true ∧ sp.text ≠ []) ∧
      (sp.broken = true → sp.column 0 ≠ 0) ∧ (rest.isLast = true ∨ rest.first ≠ []) ∧
        rest.FitsQuoted single

end Words

theorem Piece.Fits.head {p : Piece} (fits : p.Fits single) (rest : List Char) :
    ∃ b ∈ (p.text single ++ rest).head?, isBlank b = false ∧ isBreak b = false := by
  cases p with
  | char b =>
    refine ⟨b, ?_, fits.1, fits.2.1⟩
    by_cases quote : single = true ∧ b = '\'' <;> simp [Piece.text, quote]
  | escape code b => exact ⟨'\\', rfl, rfl, rfl⟩

/-- No gap starts where words do. -/
theorem Words.FitsQuoted.head {ws : Words Piece} (fits : ws.FitsQuoted single)
    (starts : ws.isLast = true ∨ ws.first ≠ []) {quote : Char}
    (isQuote : quote = if single then '\'' else '"') (rest : List Char) :
    ∀ b ∈ ((ws.spelled single).text ++ (quote :: rest)).head?,
      isBlank b = false ∧ isBreak b = false := by
  have first : ∀ (ps : List Piece) (tail : List Char), (∀ p ∈ ps, p.Fits single) → ps ≠ [] →
      ∀ b ∈ (Piece.spell single ps ++ tail).head?, isBlank b = false ∧ isBreak b = false := by
    intro ps tail fits nonempty
    obtain ⟨p, ps, rfl⟩ := List.exists_cons_of_ne_nil nonempty
    obtain ⟨d, head, ok⟩ := (fits p (by simp)).head (Piece.spell single ps ++ tail)
    intro b mem
    have mem : b ∈ (p.text single ++ (Piece.spell single ps ++ tail)).head? := by
      simpa [Piece.spell] using mem
    rw [Option.mem_def.mp head] at mem
    cases mem
    exact ok
  cases ws with
  | last ps =>
    by_cases none : ps = []
    · subst none
      intro b mem
      have same : b = quote := by
        simpa [Words.spelled, mapRuns, Words.text, Piece.spell] using mem.symm
      rw [same, isQuote]
      cases single <;> decide
    · exact first ps _ fits none
  | more ps sp words =>
    have nonempty : ps ≠ [] := starts.resolve_left (by simp [Words.isLast])
    have := first ps (sp.text ++ ((words.spelled single).text ++ (quote :: rest))) fits.1 nonempty
    simpa [Words.spelled, mapRuns, Words.text] using this

/-- Characters between quotes and the gap after them, which is folded. -/
theorem readQuoted_more {ps : List Piece} {sp : Spacing} {text : List Char}
    (split : c.rest = Piece.spell single ps ++ (sp.text ++ rest)) (fits : ∀ p ∈ ps, p.Fits single)
    (bare : sp.Bare) (blank : sp.Fits true) (nonempty : sp.text ≠ [])
    (stops : ∀ b ∈ rest.head?, isBlank b = false ∧ isBreak b = false)
    (marker : c.atDocumentMarker = false) :
    readQuoted single text c = readQuoted single (text ++ ps.map Piece.value ++ sp.gap.folded)
      (sp.after (c.advance (Piece.spell single ps).length)) := by
  obtain ⟨left, -⟩ := Spacing.after_form (Cursor.rest_advance split)
  obtain ⟨b, head, isBlank⟩ := Spacing.head_text blank bare.apart nonempty rest
  have run : quotedRun single c =
      some (ps.map Piece.value, .gap, c.advance (Piece.spell single ps).length) := by
    obtain ⟨tail, gap⟩ := List.head?_eq_some_iff.mp head
    rw [gap] at split
    exact quotedRun_gap fits split isBlank
  have reads : Gap.read (-1) .empty (c.advance (Piece.spell single ps).length) =
      some (sp.gap, sp.after (c.advance (Piece.spell single ps).length)) :=
    Gap.read_spacing (Cursor.rest_advance split) bare blank stops
  have shorter : (sp.after (c.advance (Piece.spell single ps).length)).rest.length <
      c.rest.length := by
    have := List.length_pos_iff.mpr nonempty
    rw [left, split]
    simp only [List.length_append]
    omega
  rw [readQuoted, marker, run]
  simp only [Bool.false_eq_true, reduceCtorEq, if_false, reads, if_pos shorter]

theorem readQuoted_words {ws : Words Piece} {text : List Char} {quote : Char}
    (isQuote : quote = if single then '\'' else '"')
    (split : c.rest = (ws.spelled single).text ++ (quote :: rest)) (fits : ws.FitsQuoted single)
    (marker : c.atDocumentMarker = false) (follows : single = true → rest.head? ≠ some '\'') :
    readQuoted single text c =
      some (text ++ ws.values.content, ((ws.spelled single).after c).advance 1) := by
  induction ws generalizing c text with
  | last ps =>
    have split : c.rest = Piece.spell single ps ++ (quote :: rest) := split
    rw [readQuoted, marker, quotedRun_quote fits isQuote split follows]
    rfl
  | more ps sp words ih =>
    obtain ⟨fits, ⟨bare, blank, nonempty⟩, further, starts, later⟩ := fits
    have split : c.rest = Piece.spell single ps ++
        (sp.text ++ ((words.spelled single).text ++ (quote :: rest))) := by
      simpa [Words.spelled, Words.mapRuns, Words.text] using split
    obtain ⟨left, column⟩ := Spacing.after_form (Cursor.rest_advance split)
    have marker' : (sp.after (c.advance (Piece.spell single ps).length)).atDocumentMarker =
        false := by
      have notFirst : (sp.after (c.advance (Piece.spell single ps).length)).column ≠ 0 := by
        rw [column]
        cases sp with
        | blanks cs =>
          have := List.length_pos_iff.mpr nonempty
          simp only [Spacing.column, Spacing.text] at this ⊢
          omega
        | line l next => exact further rfl
      simp [Cursor.atDocumentMarker, Cursor.atMarker, notFirst]
    rw [readQuoted_more split fits bare blank nonempty (later.head starts isQuote rest) marker,
      ih left later marker']
    simp [Words.values, Words.spelled, Words.mapRuns, Words.content, Words.after]

/-! ## As a token -/

namespace Words

/-- A quoted scalar as it is written. -/
def quoted (single : Bool) (ws : Words Piece) : List Char :=
  let quote := if single then '\'' else '"'
  quote :: ((ws.spelled single).text ++ [quote])

def quotedStyle (single : Bool) : Style := if single then .singleQuoted else .doubleQuoted

/-- The column after a quoted scalar. -/
def quotedColumn (single : Bool) (ws : Words Piece) (c : Nat) : Nat :=
  (ws.spelled single).column (c + 1) + 1

end Words

theorem Scan.readToken_quoted {t : Scan} {quote : Char} {rest : List Char}
    (isQuote : quote = if single then '\'' else '"') (split : t.place.rest = quote :: rest) :
    t.readToken = t.readQuotedScalar single := by
  have notDash : t.place.atMarker '-' = false := by
    refine atMarker_eq_false split (.inr ?_)
    rw [isQuote]
    cases single <;> decide
  have notDot : t.place.atMarker '.' = false := by
    refine atMarker_eq_false split (.inr ?_)
    rw [isQuote]
    cases single <;> decide
  unfold readToken
  rw [(peek?_of_rest split).1]
  cases single with
  | true =>
    obtain rfl : quote = '\'' := isQuote
    simp [notDash, notDot]
  | false =>
    obtain rfl : quote = '"' := isQuote
    simp [notDash, notDot]

theorem Words.quoted_append (ws : Words Piece) (rest : List Char) :
    ws.quoted single ++ rest = (if single then '\'' else '"') ::
      ((ws.spelled single).text ++ ((if single then '\'' else '"') :: rest)) := by
  simp [Words.quoted]

/-- A quoted scalar is read as a whole, whether a key may start there or not. -/
theorem Scan.readToken_quotedWords {t : Scan} {ws : Words Piece} {rest : List Char}
    {k : Option KeyStart} (split : t.place.rest = ws.quoted single ++ rest)
    (words : ws.FitsQuoted single) (follows : single = true → rest.head? ≠ some '\'')
    (marks : t.markKey = some { t with keyStart := k }) :
    t.readToken = some (t.scanned k (.scalar ws.values.content (Words.quotedStyle single))
      (((ws.spelled single).after (t.place.advance 1)).advance 1) false) := by
  obtain ⟨quote, isQuote⟩ : ∃ quote, quote = if single then '\'' else '"' := ⟨_, rfl⟩
  have here : t.place.rest = [quote] ++ ((ws.spelled single).text ++ (quote :: rest)) := by
    rw [split, ws.quoted_append, ← isQuote]
    rfl
  have inner : (t.place.advance 1).rest = (ws.spelled single).text ++ (quote :: rest) :=
    Cursor.rest_advance here
  have marker : (t.place.advance 1).atDocumentMarker = false := by
    simp [Cursor.atDocumentMarker, Cursor.atMarker, Cursor.advance]
  have reads : readQuoted single [] (t.place.advance 1) =
      some ([] ++ ws.values.content, ((ws.spelled single).after (t.place.advance 1)).advance 1) :=
    readQuoted_words isQuote inner words marker follows
  rw [Scan.readToken_quoted isQuote here, Scan.readQuotedScalar, Scan.readNode, marks, reads]
  rfl

/-- What is left after a quoted scalar, and where. -/
theorem Words.after_quoted {c : Cursor} {ws : Words Piece} {rest : List Char}
    (split : c.rest = ws.quoted single ++ rest) :
    (((ws.spelled single).after (c.advance 1)).advance 1).rest = rest ∧
      (((ws.spelled single).after (c.advance 1)).advance 1).column =
        ws.quotedColumn single c.column := by
  rw [ws.quoted_append] at split
  generalize (if single then '\'' else '"') = quote at split
  have here : c.rest = [quote] ++ ((ws.spelled single).text ++ (quote :: rest)) := split
  obtain ⟨left, column⟩ := Words.after_form (Cursor.rest_advance here)
  have left : ((ws.spelled single).after (c.advance 1)).rest = [quote] ++ rest := left
  exact ⟨Cursor.rest_advance left, congrArg (· + 1) column⟩

/-- Over a quoted scalar further in than the innermost block. -/
theorem Reaches.quoted {a : Spot} {sp : Spacing} {ws : Words Piece} {rest : List Char}
    (split : a.rest = sp.text ++ (ws.quoted single ++ rest)) (fits : sp.Fits a.tabs)
    (inside : a.depth = 0 → a.indent < sp.column a.column) (words : ws.FitsQuoted single)
    (follows : single = true → rest.head? ≠ some '\'') :
    Reaches a { a with
      rest
      column := ws.quotedColumn single (sp.column a.column)
      tokens := a.tokens ++ [.scalar ws.values.content (Words.quotedStyle single)]
      keyAllowed := false } := by
  have startsToken : StartsToken (ws.quoted single ++ rest) := by
    rw [ws.quoted_append]
    rintro d ⟨⟩
    cases single <;> decide
  refine .inner split fits startsToken (fun block => Int.le_of_lt (inside block)) (fun t is => ?_)
    (by simp)
  obtain ⟨k, marks, free⟩ := is.markKey fun block same' => by
    have := inside block
    have : a.indent = (sp.column a.column : Int) := same'
    omega
  have reads := Scan.readToken_quotedWords is.rest words follows marks
  obtain ⟨left, column⟩ := Words.after_quoted is.rest
  have atEnd := is.scanned free (.scalar ws.values.content (Words.quotedStyle single))
    (((ws.spelled single).after (t.place.advance 1)).advance 1) false
  rw [left, column, is.column] at atEnd
  refine ⟨_, reads, atEnd.stands, ?_⟩
  change (((ws.spelled single).after (t.place.advance 1)).advance 1).rest.length < _
  rw [left, ws.quoted_append, List.length_cons, List.length_append, List.length_cons]
  omega

end Spindle.Yaml
