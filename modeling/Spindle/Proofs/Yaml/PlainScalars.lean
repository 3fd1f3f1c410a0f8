import Spindle.Proofs.Yaml.Spots

/-!
# Plain scalars

A plain scalar is made of words with gaps between them. It ends where no word can follow.
-/

namespace Spindle.Yaml

/-- Characters of a plain scalar without gaps. A colon stands only before another of them. -/
def IsWord (flow : Bool) : List Char → Prop
  | [] => True
  | b :: rest =>
    isBlank b = false ∧ isBreak b = false ∧ (flow = true → isFlowIndicator b = false) ∧
      (b = ':' → rest ≠ [] ∧ (flow = true → rest.head? ≠ some '?')) ∧ IsWord flow rest

/-- Whether no word starts here. -/
def EndsRun (flow : Bool) (rest : List Char) : Prop := plainRun flow rest = some []

theorem isWord_head {flow : Bool} {w : List Char} (word : IsWord flow w) :
    ∀ b ∈ w.head?, isBlank b = false ∧ isBreak b = false ∧
      (flow = true → isFlowIndicator b = false) := by
  cases w with
  | nil => simp
  | cons d w =>
    rintro b ⟨⟩
    exact ⟨word.1, word.2.1, word.2.2.1⟩

theorem plainRun_word {flow : Bool} {w rest : List Char} (word : IsWord flow w)
    (ends : EndsRun flow rest) : plainRun flow (w ++ rest) = some w := by
  induction w with
  | nil => exact ends
  | cons b w ih =>
    obtain ⟨noBlank, noBreak, noIndicator, colon, later⟩ := word
    have next : b = ':' → ∃ d, (w ++ rest).head? = some d ∧ isBlank d = false ∧
        isBreak d = false ∧ (flow = true → isFlowIndicator d = false ∧ d ≠ '?') := by
      intro isColon
      obtain ⟨nonempty, noMark⟩ := colon isColon
      obtain ⟨d, w, rfl⟩ := List.exists_cons_of_ne_nil nonempty
      obtain ⟨noBlank, noBreak, noIndicator⟩ := isWord_head later d rfl
      exact ⟨d, rfl, noBlank, noBreak, fun flow =>
        ⟨noIndicator flow, fun mark => noMark flow (congrArg some mark)⟩⟩
    have notBad : (flow && b = ':' &&
        (w ++ rest).head?.any (fun d => isFlowIndicator d || d = '?')) = false := by
      by_cases isColon : b = ':'
      · obtain ⟨d, first, -, -, ok⟩ := next isColon
        rw [first]
        cases flow with
        | false => rfl
        | true => simp [ok rfl]
      · simp [isColon]
    have notEnd : (b = ':' && endsWord (w ++ rest).head?) = false := by
      by_cases isColon : b = ':'
      · obtain ⟨d, first, noBlank, noBreak, -⟩ := next isColon
        simp [first, endsWord, noBlank, noBreak]
      · simp [isColon]
    have notIndicator : (flow && isFlowIndicator b) = false := by
      cases flow with
      | false => rfl
      | true => simp [noIndicator rfl]
    rw [List.cons_append, plainRun]
    simp only [noBlank, noBreak, Bool.or_self, Bool.false_eq_true, if_false, notBad, notEnd,
      notIndicator, ih later, Option.map_some]

theorem endsRun_blank {flow : Bool} {rest : List Char}
    (blank : ∃ b ∈ rest.head?, isBlank b = true ∨ isBreak b = true) : EndsRun flow rest := by
  obtain ⟨b, first, blank⟩ := blank
  cases rest with
  | nil => cases first
  | cons d rest =>
    cases first
    have blank : (isBlank b || isBreak b) = true := by simpa using blank
    simp [EndsRun, plainRun, blank]

theorem endsRun_colon {rest : List Char} (ends : endsWord rest.head? = true) :
    EndsRun false (':' :: rest) := by
  have notBlank : (isBlank ':' || isBreak ':') = false := rfl
  simp [EndsRun, plainRun, notBlank, ends]

theorem endsRun_indicator {b : Char} (rest : List Char) (indicator : isFlowIndicator b = true) :
    EndsRun true (b :: rest) := by
  have notColon : b ≠ ':' := by
    rintro rfl
    cases indicator
  by_cases blank : (isBlank b || isBreak b) = true
  · simp [EndsRun, plainRun, blank]
  · simp [EndsRun, plainRun, blank, indicator, notColon]

/-! ## Words -/

/-- Runs of characters with gaps between them. -/
inductive Words (α : Type) where
  | last (w : List α)
  | more (w : List α) (sp : Spacing) (rest : Words α)

namespace Words

def text : Words Char → List Char
  | last w => w
  | more w sp rest => w ++ (sp.text ++ rest.text)

/-- What the words stand for, the gaps between them folded. -/
def content : Words Char → List Char
  | last w => w
  | more w sp rest => w ++ (sp.gap.folded ++ rest.content)

def after (c : Cursor) : Words Char → Cursor
  | last w => c.advance w.length
  | more w sp rest => rest.after (sp.after (c.advance w.length))

/-- The column after the words. -/
def column (c : Nat) : Words Char → Nat
  | last w => c + w.length
  | more w sp rest => rest.column (sp.column (c + w.length))

/-- Whether the words make a plain scalar of which later lines are indented by `least` or more. -/
def Fits (flow : Bool) (least : Nat) : Words Char → Prop
  | last w => w ≠ [] ∧ IsWord flow w
  | more w sp rest =>
    (w ≠ [] ∧ IsWord flow w) ∧ (sp.Bare ∧ sp.Fits true ∧ sp.text ≠ []) ∧
      (sp.broken = true → least ≤ sp.column 0) ∧ rest.text.head? ≠ some '#' ∧ rest.Fits flow least

theorem after_form {ws : Words Char} {c : Cursor} {rest : List Char}
    (split : c.rest = ws.text ++ rest) :
    (ws.after c).rest = rest ∧ (ws.after c).column = ws.column c.column := by
  induction ws generalizing c with
  | last w => exact ⟨Cursor.rest_advance split, rfl⟩
  | more w sp words ih =>
    have split : c.rest = w ++ (sp.text ++ (words.text ++ rest)) := by simpa [text] using split
    obtain ⟨left, column⟩ := Spacing.after_form (Cursor.rest_advance split)
    obtain ⟨left', column'⟩ := ih left
    refine ⟨left', column'.trans ?_⟩
    rw [column]
    rfl

end Words

/-! ## Reading -/

variable {flow : Bool} {indent : Int} {text : List Char} {gap next : Gap} {c : Cursor}

theorem readPlain_stop (stops : c.rest.head? = some '#' ∨ EndsRun flow c.rest) :
    readPlain flow indent text gap c = some ⟨text, gap.first.isSome, c⟩ := by
  rw [readPlain, Cursor.peek?_zero]
  by_cases marker : (c.atDocumentMarker || decide (c.rest.head? = some '#')) = true
  · rw [if_pos marker]
  · rw [if_neg marker]
    rcases stops with hash | ends
    · simp [hash] at marker
    · unfold EndsRun at ends
      split
      · simp_all
      · rfl
      · simp_all

theorem readPlain_run {w : List Char} {place : Cursor} (marker : c.atDocumentMarker = false)
    (hash : c.rest.head? ≠ some '#') (nonempty : w ≠ []) (run : plainRun flow c.rest = some w)
    (reads : Gap.read indent .empty (c.advance w.length) = some (next, place))
    (shorter : place.rest.length < c.rest.length) :
    readPlain flow indent text gap c =
      if next = .empty ∨ flow = false ∧ (place.column : Int) < indent then
        some ⟨text ++ gap.folded ++ w, next.first.isSome, place⟩
      else readPlain flow indent (text ++ gap.folded ++ w) next place := by
  rw [readPlain, Cursor.peek?_zero]
  have start : ¬ (c.atDocumentMarker || decide (c.rest.head? = some '#')) = true := by
    simp [marker, hash]
  rw [if_neg start]
  split
  · simp_all
  · simp_all
  · rename_i run'
    rw [run] at run'
    cases run'
    simp only [reads, if_pos shorter]
    simp

/-- What stands after a plain scalar, where no other word of it can follow. -/
structure EndsPlain (flow : Bool) (indent : Int) (sp : Spacing) (rest : List Char) : Prop where
  fits : sp.Fits true
  apart : sp.Apart
  notBlank : ∀ b ∈ rest.head?, isBlank b = false ∧ isBreak b = false
  ends : EndsRun flow rest ∨ rest.head? = some '#' ∧ sp.text ≠ [] ∨
    flow = false ∧ sp.broken = true ∧ (sp.column 0 : Int) < indent

theorem Spacing.head_text {sp : Spacing} (fits : sp.Fits true) (apart : sp.Apart)
    (nonempty : sp.text ≠ []) (rest : List Char) :
    ∃ b ∈ (sp.text ++ rest).head?, isBlank b = true ∨ isBreak b = true := by
  cases sp with
  | blanks cs =>
    obtain ⟨b, cs, rfl⟩ := List.exists_cons_of_ne_nil nonempty
    exact ⟨b, rfl, .inl (AreBlanks.isBlank fits b (by simp))⟩
  | line l next =>
    cases blanks : l.blanks with
    | cons b bs =>
      have first : ((line l next).text ++ rest).head? = some b := by simp [text, Line.text, blanks]
      exact ⟨b, first, .inl (fits.1.isBlank b (by simp [blanks]))⟩
    | nil =>
      have none : l.body = [] := apart.resolve_right fun some => some blanks
      obtain ⟨b, first, isBreak, -⟩ := l.ending.head_isBreak (next.text ++ rest)
      refine ⟨b, ?_, .inr isBreak⟩
      simpa [text, Line.text, blanks, none] using first

theorem Spacing.Bare.apart {sp : Spacing} (bare : sp.Bare) : sp.Apart := by
  cases sp with
  | blanks cs => trivial
  | line l next => exact .inl bare.1

theorem Words.Fits.head_text {least : Nat} {ws : Words Char} (fits : ws.Fits flow least) :
    ∃ b, ws.text.head? = some b ∧ isBlank b = false ∧ isBreak b = false := by
  have first : ∀ w rest : List Char, w ≠ [] → IsWord flow w →
      ∃ b, (w ++ rest).head? = some b ∧ isBlank b = false ∧ isBreak b = false := by
    intro w rest nonempty word
    obtain ⟨b, w, rfl⟩ := List.exists_cons_of_ne_nil nonempty
    exact ⟨b, rfl, word.1, word.2.1⟩
  cases ws with
  | last w =>
    have := first w [] fits.1 fits.2
    rwa [List.append_nil] at this
  | more w sp rest => exact first w _ fits.1.1 fits.1.2

theorem EndsPlain.stops {sp : Spacing} {rest : List Char} (ends : EndsPlain flow indent sp rest) :
    ∀ b ∈ (sp.commented ++ rest).head?, isBlank b = false ∧ isBreak b = false := by
  intro b mem
  rcases sp.commented_cases ends.fits with ⟨-, none⟩ | first
  · rw [none, List.nil_append] at mem
    exact ends.notBlank b mem
  · rw [List.head?_append, first] at mem
    cases mem
    decide

theorem EndsPlain.endsRun {sp : Spacing} {rest : List Char} (ends : EndsPlain flow indent sp rest) :
    EndsRun flow (sp.text ++ rest) := by
  by_cases none : sp.text = []
  · rcases ends.ends with ends | ⟨-, some⟩ | ⟨-, broken, -⟩
    · rwa [none, List.nil_append]
    · exact absurd none some
    · exact absurd none (Spacing.text_ne_nil broken)
  · exact endsRun_blank (Spacing.head_text ends.fits ends.apart none rest)

/-- After its last word a plain scalar takes in the gap up to a comment, and ends. -/
theorem readPlain_last {w : List Char} {sp : Spacing} {rest : List Char}
    (split : c.rest = w ++ (sp.text ++ rest)) (nonempty : w ≠ []) (word : IsWord flow w)
    (ends : EndsPlain flow indent sp rest) (marker : c.atDocumentMarker = false)
    (hash : c.rest.head? ≠ some '#') :
    readPlain flow indent text gap c =
      some ⟨text ++ gap.folded ++ w, sp.bare.broken, sp.bare.after (c.advance w.length)⟩ := by
  have left := Cursor.rest_advance split
  have bare : (c.advance w.length).rest = sp.bare.text ++ (sp.commented ++ rest) := by
    rw [left, ← List.append_assoc, ← sp.text_bare]
  obtain ⟨after, column⟩ := Spacing.after_form bare
  have reads : Gap.read indent .empty (c.advance w.length) =
      some (sp.bare.gap, sp.bare.after (c.advance w.length)) :=
    Gap.read_spacing bare sp.bare_bare ends.fits.bare ends.stops
  have run : plainRun flow c.rest = some w := by
    rw [split]
    exact plainRun_word word ends.endsRun
  have shorter : (sp.bare.after (c.advance w.length)).rest.length < c.rest.length := by
    have := List.length_pos_iff.mpr nonempty
    rw [after, split, sp.text_bare]
    simp only [List.length_append]
    omega
  have broken : sp.bare.gap.first.isSome = sp.bare.broken := by
    simp [Spacing.gap, Spacing.first_gapAfter, Gap.empty]
  rw [readPlain_run marker hash nonempty run reads shorter]
  split
  · rw [broken]
  · rename_i goesOn
    rw [readPlain_stop, broken]
    rw [after]
    rcases sp.commented_cases ends.fits with ⟨same, none⟩ | first
    · rw [none, List.nil_append]
      rcases ends.ends with ends | ⟨hash, -⟩ | ⟨block, broken, outside⟩
      · exact .inr ends
      · exact .inl hash
      · refine absurd (.inr ⟨block, ?_⟩) goesOn
        rw [column, same]
        cases sp with
        | blanks cs => cases broken
        | line l next => exact outside
    · exact .inl (by simp [first])

/-- A word of a plain scalar and the spacing up to the next one, which is further in. -/
theorem readPlain_more {w tail : List Char} {sp : Spacing} {b : Char}
    (split : c.rest = w ++ (sp.text ++ (b :: tail))) (nonempty : w ≠ []) (word : IsWord flow w)
    (bare : sp.Bare) (blank : sp.Fits true) (apart : sp.text ≠ []) (noBlank : isBlank b = false)
    (noBreak : isBreak b = false) (marker : c.atDocumentMarker = false)
    (hash : c.rest.head? ≠ some '#')
    (inside : flow = false → indent ≤ (sp.after (c.advance w.length)).column) :
    readPlain flow indent text gap c =
      readPlain flow indent (text ++ gap.folded ++ w) sp.gap (sp.after (c.advance w.length)) := by
  have left := Cursor.rest_advance split
  obtain ⟨after, -⟩ := Spacing.after_form left
  have run : plainRun flow c.rest = some w := by
    rw [split]
    exact plainRun_word word (endsRun_blank (Spacing.head_text blank bare.apart apart _))
  have reads : Gap.read indent .empty (c.advance w.length) =
      some (sp.gap, sp.after (c.advance w.length)) := by
    refine Gap.read_spacing (g := .empty) left bare blank ?_
    rintro d ⟨⟩
    exact ⟨noBlank, noBreak⟩
  have shorter : (sp.after (c.advance w.length)).rest.length < c.rest.length := by
    have := List.length_pos_iff.mpr nonempty
    rw [after, split]
    simp only [List.length_append]
    omega
  have goesOn : ¬ (sp.gap = .empty ∨ flow = false ∧
      ((sp.after (c.advance w.length)).column : Int) < indent) := by
    rintro (empty | ⟨block, outside⟩)
    · exact apart (Spacing.gap_eq_empty_iff.mp empty)
    · have := inside block
      omega
  rw [readPlain_run marker hash nonempty run reads shorter, if_neg goesOn]

theorem readPlain_words {ws : Words Char} {sp : Spacing} {rest : List Char} {least : Nat}
    (split : c.rest = ws.text ++ (sp.text ++ rest)) (fits : ws.Fits flow least)
    (ends : EndsPlain flow indent sp rest) (marker : c.atDocumentMarker = false)
    (hash : c.rest.head? ≠ some '#') (positive : 0 < least)
    (inside : flow = false → indent ≤ least ∧ indent ≤ c.column + 1) :
    readPlain flow indent text gap c =
      some ⟨text ++ gap.folded ++ ws.content, sp.bare.broken, sp.bare.after (ws.after c)⟩ := by
  induction ws generalizing c text gap with
  | last w => exact readPlain_last split fits.1 fits.2 ends marker hash
  | more w between words ih =>
    obtain ⟨⟨nonempty, word⟩, ⟨bare, blank, apart⟩, further, noHash, later⟩ := fits
    have split : c.rest = w ++ (between.text ++ (words.text ++ (sp.text ++ rest))) := by
      simpa [Words.text] using split
    obtain ⟨after, column⟩ := Spacing.after_form (Cursor.rest_advance split)
    obtain ⟨b, first, noBlank, noBreak⟩ := later.head_text
    obtain ⟨tail, next⟩ : ∃ tail, words.text ++ (sp.text ++ rest) = b :: tail := by
      obtain ⟨tail, text⟩ := List.head?_eq_some_iff.mp first
      exact ⟨tail ++ (sp.text ++ rest), by rw [text, List.cons_append]⟩
    -- The next word is on a later line further in, or to the right on the same line.
    have further' : least ≤ (between.after (c.advance w.length)).column ∨
        c.column + 1 ≤ (between.after (c.advance w.length)).column := by
      have positive' : 0 < w.length := List.length_pos_iff.mpr nonempty
      rw [column]
      cases between with
      | blanks cs =>
        right
        simp only [Cursor.advance, Spacing.column]
        omega
      | line l next => exact .inl (further rfl)
    have inside' : flow = false → indent ≤ (between.after (c.advance w.length)).column := by
      intro block
      have := inside block
      omega
    have marker' : (between.after (c.advance w.length)).atDocumentMarker = false := by
      have notFirst : (between.after (c.advance w.length)).column ≠ 0 := by omega
      simp [Cursor.atDocumentMarker, Cursor.atMarker, notFirst]
    have hash' : (between.after (c.advance w.length)).rest.head? ≠ some '#' := by
      rw [after, List.head?_append, first]
      rw [first] at noHash
      exact noHash
    have moreInside : flow = false →
        indent ≤ least ∧ indent ≤ (between.after (c.advance w.length)).column + 1 := by
      intro block
      have := inside' block
      exact ⟨(inside block).1, by omega⟩
    rw [next] at split
    rw [readPlain_more split nonempty word bare blank apart noBlank noBreak marker hash inside',
      ih after later marker' hash' moreInside]
    simp [Words.content, Words.after]

/-! ## As a token -/

/-- Whether a word can be the first one of a plain scalar. -/
def StartsPlain (flow : Bool) (w : List Char) : Prop :=
  ∃ b rest, w = b :: rest ∧ b ≠ '\ufeff' ∧ (isIndicator b = false ∨
    rest ≠ [] ∧ (b = '-' ∨ flow = false ∧ (b = '?' ∨ b = ':')))

def Words.first {α : Type} : Words α → List α
  | last w => w
  | more w _ _ => w

theorem ne_of_isIndicator {b d : Char} (other : isIndicator b = false) (is : isIndicator d = true) :
    b ≠ d := by
  rintro rfl
  rw [other] at is
  cases is

namespace Scan

variable {t : Scan} {a : Spot}

theorem peek?_of_rest {c : Cursor} {b : Char} {rest : List Char} (split : c.rest = b :: rest) :
    c.peek? 0 = some b ∧ c.peek? 1 = rest.head? := by
  rw [Cursor.peek?, Cursor.peek?, split, List.head?_eq_getElem?]
  exact ⟨rfl, rfl⟩

theorem atMarker_eq_false {c : Cursor} {b mark : Char} {rest : List Char}
    (split : c.rest = b :: rest) (other : c.column ≠ 0 ∨ b ≠ mark) : c.atMarker mark = false := by
  unfold Cursor.atMarker
  rcases other with column | first
  · simp [column]
  · have different : c.rest.take 3 ≠ [mark, mark, mark] := by
      intro same
      rw [split] at same
      simp only [List.take_succ_cons, List.cons.injEq] at same
      exact first same.1
    simp [different]

theorem readToken_plain {b : Char} {rest : List Char} (split : t.place.rest = b :: rest)
    (starts : isIndicator b = false ∧ isBlank b = false ∧ isBreak b = false ∨
      endsWord rest.head? = false ∧ (b = '-' ∨ t.inFlow = false ∧ (b = '?' ∨ b = ':')))
    (column : t.place.column ≠ 0 ∨ isIndicator b = false ∧ b ≠ '.') :
    t.readToken = t.readPlainScalar := by
  obtain ⟨first, second⟩ := peek?_of_rest split
  have notDash : t.place.atMarker '-' = false :=
    atMarker_eq_false split (column.imp_right fun ⟨other, _⟩ => ne_of_isIndicator other (by decide))
  have notDot : t.place.atMarker '.' = false :=
    atMarker_eq_false split (column.imp_right fun ⟨_, other⟩ => other)
  unfold readToken
  rw [first]
  simp only [second, notDash, notDot]
  rcases starts with ⟨other, blank, noBreak⟩ | ⟨next, rfl | ⟨block, rfl | rfl⟩⟩
  · have ne : ∀ d, isIndicator d = true → b ≠ d := fun d is => ne_of_isIndicator other is
    have plain : t.startsPlain b rest.head? = true := by
      simp [startsPlain, other, blank, noBreak]
    simp [ne '%' (by decide), ne '[' (by decide), ne '\x7b' (by decide), ne ']' (by decide),
      ne '\x7d' (by decide), ne ',' (by decide), ne '-' (by decide), ne '?' (by decide),
      ne ':' (by decide), ne '*' (by decide), ne '&' (by decide), ne '!' (by decide),
      ne '|' (by decide), ne '>' (by decide), ne '\'' (by decide), ne '"' (by decide), plain]
  · have plain : t.startsPlain '-' rest.head? = true := by
      cases h : rest.head? with
      | none => simp [startsPlain]
      | some d =>
        rw [h] at next
        have next : isBlank d = false ∧ isBreak d = false := by simpa [endsWord] using next
        simp [startsPlain, next]
    simp [next, plain]
  · have plain : t.startsPlain '?' rest.head? = true := by simp [startsPlain, block, next]
    simp [next, plain, block]
  · have plain : t.startsPlain ':' rest.head? = true := by simp [startsPlain, block, next]
    simp [next, plain, block]

/-- A key may start at a scalar; it has to only in the column of the innermost block. -/
theorem Is.markKey (is : t.Is a) (inside : a.depth = 0 → a.indent ≠ a.column) :
    ∃ k, t.markKey = some { t with keyStart := k } ∧ ∀ k', k = some k' → k'.required = false := by
  unfold Scan.markKey
  by_cases allowed : t.keyAllowed = true
  · rw [if_pos allowed, dropKey_eq is.free]
    refine ⟨_, rfl, ?_⟩
    rintro k ⟨⟩
    have flow : ({ t with keyStart := none } : Scan).inFlow = decide (a.depth ≠ 0) := is.inFlow
    rw [is.column, is.indent] at *
    by_cases block : a.depth = 0
    · simp [flow, block, inside block]
    · simp [flow, block]
  · rw [if_neg allowed]
    exact ⟨t.keyStart, rfl, fun k same => is.free k (by simp [same])⟩

/-- A scan after a scalar that it has read as a token. -/
def scanned (t : Scan) (k : Option KeyStart) (token : Token) (place : Cursor) (keyAllowed : Bool) :
    Scan :=
  { { t with keyStart := k }.push token with place, keyAllowed }

theorem Is.scanned (is : t.Is a) {k : Option KeyStart}
    (free : ∀ k', k = some k' → k'.required = false) (token : Token) (place : Cursor)
    (keyAllowed : Bool) :
    (t.scanned k token place keyAllowed).Is { a with
      rest := place.rest
      column := place.column
      tokens := a.tokens ++ [token]
      keyAllowed } :=
  { is with
    rest := rfl
    column := rfl
    tokens := congrArg (· ++ [token]) is.tokens
    allowed := rfl
    free := by
      intro k' mem
      rcases List.mem_cons.mp mem with same | mem
      · exact free k' same.symm
      · exact is.free k' (List.mem_cons_of_mem _ mem) }

end Scan

theorem Words.Fits.starts {ws : Words Char} {least : Nat} (fits : ws.Fits flow least)
    (starts : StartsPlain flow ws.first) (after : List Char) :
    ∃ b rest, ws.text ++ after = b :: rest ∧ isBlank b = false ∧ isBreak b = false ∧ b ≠ '#' ∧
      b ≠ '\ufeff' ∧ (isIndicator b = false ∨
        endsWord rest.head? = false ∧ (b = '-' ∨ flow = false ∧ (b = '?' ∨ b = ':'))) := by
  obtain ⟨b, w, first, notMark, kind⟩ := starts
  have word : IsWord flow (b :: w) := by
    rw [← first]
    cases ws with
    | last => exact fits.2
    | more => exact fits.1.2
  obtain ⟨tail, text⟩ : ∃ tail, ws.text ++ after = b :: (w ++ tail) := by
    cases ws with
    | last u =>
      refine ⟨after, ?_⟩
      rw [Words.text, show u = b :: w from first, List.cons_append]
    | more u sp words =>
      refine ⟨sp.text ++ (words.text ++ after), ?_⟩
      rw [Words.text, show u = b :: w from first]
      simp
  refine ⟨b, w ++ tail, text, word.1, word.2.1, ?_, notMark, ?_⟩
  · rcases kind with other | ⟨-, rfl | ⟨-, rfl | rfl⟩⟩
    · exact ne_of_isIndicator other (by decide)
    all_goals decide
  · rcases kind with other | ⟨nonempty, kind⟩
    · exact .inl other
    · obtain ⟨d, w, rfl⟩ := List.exists_cons_of_ne_nil nonempty
      obtain ⟨blank, noBreak, -⟩ := isWord_head word.2.2.2.2 d rfl
      exact .inr ⟨by simp [endsWord, blank, noBreak], kind⟩

/-- A plain scalar is read with the spacing after it, up to the first comment. -/
theorem Scan.Is.readToken_plain {t : Scan} {a : Spot} {next : Spacing} {ws : Words Char}
    {rest : List Char} {least : Nat} (is : t.Is a) (split : a.rest = ws.text ++ (next.text ++ rest))
    (column : a.column ≠ 0) (inside : a.depth = 0 → a.indent < a.column)
    (words : ws.Fits (a.depth ≠ 0) least) (starts : StartsPlain (a.depth ≠ 0) ws.first)
    (positive : 0 < least) (further : a.depth = 0 → a.indent + 1 ≤ least)
    (ends : EndsPlain (a.depth ≠ 0) (a.indent + 1) next rest) :
    ∃ k, (∀ k', k = some k' → k'.required = false) ∧
      t.readToken = some ((t.scanned k (.scalar ws.content .plain) (ws.after t.place)
        (a.depth ≠ 0 && next.bare.broken)).moved (next.bare.after (ws.after t.place))
          next.bare.broken) := by
  obtain ⟨b, tail, text, blank, noBreak, hash, -, kind⟩ := words.starts starts (next.text ++ rest)
  have here : t.place.rest = ws.text ++ (next.text ++ rest) := is.rest.trans split
  have column' : t.place.column ≠ 0 := by
    rw [is.column]
    exact column
  have token : t.readToken = t.readPlainScalar := by
    apply Scan.readToken_plain (here.trans text)
    · rw [is.inFlow]
      rcases kind with other | kind
      · exact .inl ⟨other, blank, noBreak⟩
      · exact .inr kind
    · exact .inl column'
  have reads : readPlain t.inFlow (t.indent + 1) [] .empty t.place =
      some ⟨ws.content, next.bare.broken, next.bare.after (ws.after t.place)⟩ := by
    rw [is.inFlow, is.indent]
    refine (readPlain_words here words ends ?_ ?_ positive ?_).trans ?_
    · simp [Cursor.atDocumentMarker, Cursor.atMarker, column']
    · rw [here, text]
      simpa using hash
    · intro block
      have block : a.depth = 0 := by simpa using block
      have out := inside block
      have := further block
      rw [is.column]
      omega
    · simp [Gap.empty, Gap.folded]
  obtain ⟨k, marks, free⟩ := is.markKey fun block same => by
    have := inside block
    omega
  refine ⟨k, free, ?_⟩
  rw [token, Scan.readPlainScalar, marks, reads]
  rfl

/-- The spacing that a plain scalar takes in is skipped before the next token anyway. -/
theorem Scan.Is.skipToToken_bare {t : Scan} {a : Spot} {next : Spacing} {rest : List Char}
    (is : t.Is a) (split : a.rest = next.text ++ rest) (fits : next.Fits true)
    (allowed : a.keyAllowed = (a.depth ≠ 0 && next.bare.broken)) :
    (t.moved (next.bare.after t.place) next.bare.broken).skipToToken = t.skipToToken := by
  have bare : t.place.rest = next.bare.text ++ (next.commented ++ rest) := by
    rw [is.rest, split, ← List.append_assoc, ← next.text_bare]
  have tabs : t.tabs = true := by
    rw [is.tabs, Spot.tabs, allowed]
    by_cases block : a.depth = 0 <;> simp [block]
  have skips := Scan.skipToToken_spacing bare (tabs ▸ fits.bare)
  have allowed' : (t.keyAllowed || next.bare.broken && !t.inFlow) = next.bare.broken := by
    rw [is.inFlow, is.allowed, allowed]
    by_cases block : a.depth = 0 <;> simp [block]
  rw [allowed'] at skips
  exact skips.symm

/-- Over a plain scalar further in than the innermost block. -/
theorem Reaches.plain {a : Spot} {sp next : Spacing} {ws : Words Char} {rest : List Char}
    {least : Nat} (split : a.rest = sp.text ++ (ws.text ++ (next.text ++ rest)))
    (fits : sp.Fits a.tabs) (column : sp.column a.column ≠ 0)
    (inside : a.depth = 0 → a.indent < sp.column a.column)
    (words : ws.Fits (a.depth ≠ 0) least) (starts : StartsPlain (a.depth ≠ 0) ws.first)
    (positive : 0 < least) (further : a.depth = 0 → a.indent + 1 ≤ least)
    (ends : EndsPlain (a.depth ≠ 0) (a.indent + 1) next rest) :
    Reaches a { a with
      rest := next.text ++ rest
      column := ws.column (sp.column a.column)
      tokens := a.tokens ++ [.scalar ws.content .plain]
      keyAllowed := a.depth ≠ 0 && next.bare.broken } := by
  have startsToken : StartsToken (ws.text ++ (next.text ++ rest)) := by
    obtain ⟨b, tail, text, blank, noBreak, hash, mark, -⟩ := words.starts starts (next.text ++ rest)
    rw [text]
    rintro d ⟨⟩
    exact ⟨blank, noBreak, hash, mark⟩
  refine .inner split fits startsToken (fun block => Int.le_of_lt (inside block)) (fun t is => ?_)
    (by simp)
  obtain ⟨k, free, reads⟩ :=
    is.readToken_plain rfl column inside words starts positive further ends
  obtain ⟨left, leftColumn⟩ := Words.after_form is.rest
  have atEnd := is.scanned free (.scalar ws.content .plain) (ws.after t.place)
    (a.depth ≠ 0 && next.bare.broken)
  rw [left, leftColumn, is.column] at atEnd
  refine ⟨_, reads, ⟨_, atEnd, atEnd.skipToToken_bare rfl ends.fits rfl⟩, ?_⟩
  have bare : (ws.after t.place).rest = next.bare.text ++ (next.commented ++ rest) := by
    rw [left, ← List.append_assoc, ← next.text_bare]
  obtain ⟨after, -⟩ := Spacing.after_form bare
  have nonempty : 0 < ws.text.length := by
    obtain ⟨d, first, -⟩ := words.head_text
    cases text : ws.text with
    | nil => simp [text] at first
    | cons d tail => simp
  change (next.bare.after (ws.after t.place)).rest.length < _
  rw [after, next.text_bare]
  simp only [List.length_append]
  omega

end Spindle.Yaml
