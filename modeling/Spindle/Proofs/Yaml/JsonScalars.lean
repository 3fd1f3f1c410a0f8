import Spindle.Proofs.Json.Tokens
import Spindle.Proofs.Yaml.Layout
import Spindle.Proofs.Yaml.Numerals

/-!
# Strings and integers of JSON

A JSON string of ASCII characters is a double-quoted scalar for the same text: its escapes are
those of YAML, and spaces are gaps that stay as wide as they are. An integer is a numeral.
-/

namespace Spindle.Yaml

open Json.Quoted (shortEscape? writeChar)

/-! ## Characters -/

/-- ASCII without the delete character, which YAML does not allow. -/
def IsAscii (s : List Char) : Prop := ∀ b ∈ s, b.toNat < 0x7F

instance (s : List Char) : Decidable (IsAscii s) :=
  decidable_of_iff ((s.all fun b => b.toNat < 0x7F) = true) (by simp [IsAscii])

/-- A character as JSON writes it. -/
def Piece.ofJson (c : Char) : Piece :=
  if writeChar c = [c] then .char c else .escape (writeChar c).tail c

theorem Piece.value_ofJson (c : Char) : (ofJson c).value = c := by
  unfold ofJson
  split <;> rfl

/-- What is not written as itself starts with a backslash. -/
theorem writeChar_cases (c : Char) :
    (writeChar c = [c] ∧ shortEscape? c = none ∧ 0x20 ≤ c.toNat) ∨
      ∃ code, writeChar c = '\\' :: code ∧ writeChar c ≠ [c] ∧ IsEscape code c := by
  unfold writeChar
  cases short : shortEscape? c with
  | some letter =>
    refine .inr ⟨[letter], rfl, by simp, .letter ?_⟩
    unfold shortEscape? at short
    split at short <;> cases short <;> rfl
  | none =>
    dsimp only
    by_cases control : c.toNat < 0x20
    · rw [if_pos control]
      refine .inr ⟨_, rfl, by simp, ?_⟩
      have all : ∀ n < 0x20, hexNumber? ['0', '0', Nat.digitChar (n / 16), Nat.digitChar (n % 16)] =
          some n := by decide
      have valid : c.toNat.isValidChar := c.valid
      have escape := IsEscape.number (l := 'u') rfl (all _ control) valid
      rw [Char.ofNat_toNat] at escape
      exact escape
    · rw [if_neg control]
      exact .inl ⟨rfl, rfl, Nat.le_of_not_lt control⟩

theorem Piece.text_ofJson (c : Char) : (ofJson c).text false = writeChar c := by
  unfold ofJson
  rcases writeChar_cases c with ⟨itself, -⟩ | ⟨code, written, other, -⟩
  · rw [if_pos itself, itself]
    rfl
  · rw [if_neg other, written]
    rfl

theorem Piece.ofJson_fits {c : Char} (ascii : c.toNat < 0x7F) (notSpace : c ≠ ' ') :
    (ofJson c).Fits false := by
  unfold ofJson
  rcases writeChar_cases c with ⟨itself, plain, printable⟩ | ⟨code, written, other, escape⟩
  · rw [if_pos itself]
    have ne : ∀ d : Char, (shortEscape? d ≠ none ∨ 0x7F ≤ d.toNat) → c ≠ d := by
      rintro d either rfl
      rcases either with short | far
      · exact short plain
      · omega
    refine ⟨?_, ?_, fun _ => ⟨ne _ (.inl (by decide)), ne _ (.inl (by decide))⟩⟩
    · simp [isBlank, notSpace, ne '\t' (.inl (by decide))]
    · simp [isBreak, isSeparator, ne '\r' (.inl (by decide)), ne '\n' (.inl (by decide)),
        ne '\u0085' (.inr (by decide)), ne '\u2028' (.inr (by decide)),
        ne '\u2029' (.inr (by decide))]
  · rw [if_neg other, written]
    exact ⟨rfl, escape⟩

/-- Everything that is written is allowed in a text. -/
theorem isAllowed_writeChar {c : Char} (ascii : c.toNat < 0x7F) :
    ∀ b ∈ writeChar c, isAllowed b = true := by
  unfold writeChar
  cases short : shortEscape? c with
  | some letter =>
    unfold shortEscape? at short
    split at short <;> cases short <;> exact List.all_eq_true.mp rfl
  | none =>
    dsimp only
    by_cases control : c.toNat < 0x20
    · rw [if_pos control]
      have all : ∀ n < 0x20, ['\\', 'u', '0', '0', Nat.digitChar (n / 16),
          Nat.digitChar (n % 16)].all isAllowed = true := by decide
      exact List.all_eq_true.mp (all _ control)
    · rw [if_neg control]
      intro b mem
      obtain rfl := List.mem_singleton.mp mem
      have printable : 0x20 ≤ b.toNat ∧ b.toNat ≤ 0x7E := by omega
      simp [isAllowed, printable]

theorem isAllowed_write {s : List Char} (ascii : IsAscii s) :
    ∀ b ∈ Json.Quoted.write s, isAllowed b = true := by
  intro b mem
  simp only [Json.Quoted.write, List.mem_cons, List.mem_append, List.mem_flatMap,
    List.not_mem_nil, or_false] at mem
  rcases mem with rfl | ⟨c, mem, written⟩ | rfl
  · decide
  · exact isAllowed_writeChar (ascii c mem) b written
  · decide

/-! ## Strings -/

namespace Words

/-- Words with a piece in front of them. -/
def cons (p : Piece) : Words Piece → Words Piece
  | last ps => last (p :: ps)
  | more ps sp rest => more (p :: ps) sp rest

/-- Words with a space in front of them. -/
def space : Words Piece → Words Piece
  | more [] (.blanks bs) rest => more [] (.blanks (' ' :: bs)) rest
  | ws => more [] (.blanks [' ']) ws

/-- A text as JSON writes it. -/
def ofJson : List Char → Words Piece
  | [] => last []
  | c :: s => if c = ' ' then (ofJson s).space else (ofJson s).cons (.ofJson c)

def onOneLine : Words Piece → Bool
  | last _ => true
  | more _ sp rest => !sp.broken && rest.onOneLine

section
variable {single : Bool} (ws : Words Piece)

theorem onOneLine_cons (p : Piece) : (ws.cons p).onOneLine = ws.onOneLine := by
  cases ws <;> rfl

theorem onOneLine_space : ws.space.onOneLine = ws.onOneLine := by
  unfold space
  split <;> rfl

theorem text_cons (p : Piece) :
    ((ws.cons p).spelled single).text = p.text single ++ (ws.spelled single).text := by
  cases ws <;> simp [cons, spelled, mapRuns, text, Piece.spell]

theorem content_cons (p : Piece) :
    (ws.cons p).values.content = p.value :: ws.values.content := by
  cases ws <;> simp [cons, values, mapRuns, content]

theorem text_space : (ws.space.spelled single).text = ' ' :: (ws.spelled single).text := by
  unfold space
  split <;> simp [spelled, mapRuns, text, Piece.spell, Spacing.text]

theorem content_space : ws.space.values.content = ' ' :: ws.values.content := by
  unfold space
  split <;> simp [values, mapRuns, content, Spacing.gap_blanks, Gap.folded]

variable {ws}

theorem cons_fits {p : Piece} (fits : p.Fits single) (words : ws.FitsQuoted single) :
    (ws.cons p).FitsQuoted single := by
  cases ws with
  | last ps => exact List.forall_mem_cons.mpr ⟨fits, words⟩
  | more ps sp rest => exact ⟨List.forall_mem_cons.mpr ⟨fits, words.1⟩, words.2⟩

/-- Spaces in front of each other are one gap. -/
theorem space_fits (words : ws.FitsQuoted single) (line : ws.onOneLine = true) :
    ws.space.FitsQuoted single := by
  have blank : ∀ {bs : List Char}, AreBlanks true bs → AreBlanks true (' ' :: bs) :=
    fun blank => List.forall_mem_cons.mpr ⟨.inl rfl, blank⟩
  unfold space
  split
  · obtain ⟨none, ⟨-, blanks, -⟩, -, later⟩ := words
    exact ⟨none, ⟨trivial, blank blanks, by simp [Spacing.text]⟩, nofun, later⟩
  · rename_i other
    have starts : ws.isLast = true ∨ ws.first ≠ [] := by
      cases ws with
      | last ps => exact .inl rfl
      | more ps sp rest =>
        -- Words that start with a gap are in the other case, unless a line ends in it.
        refine .inr ?_
        rintro rfl
        cases sp with
        | blanks bs => exact other bs rest rfl
        | line l next => cases line
    exact ⟨List.forall_mem_nil _, ⟨trivial, blank (List.forall_mem_nil _), by simp [Spacing.text]⟩,
      fun broken => Bool.noConfusion broken, starts, words⟩

end

theorem text_ofJson (s : List Char) :
    ((ofJson s).spelled false).text = s.flatMap writeChar := by
  induction s with
  | nil => rfl
  | cons c s ih =>
    unfold ofJson
    by_cases space : c = ' '
    · rw [if_pos space, text_space, ih, space]
      rfl
    · rw [if_neg space, text_cons, ih, Piece.text_ofJson]
      rfl

theorem content_ofJson (s : List Char) : (ofJson s).values.content = s := by
  induction s with
  | nil => rfl
  | cons c s ih =>
    unfold ofJson
    by_cases space : c = ' '
    · rw [if_pos space, content_space, ih, space]
    · rw [if_neg space, content_cons, ih, Piece.value_ofJson]

theorem ofJson_fits {s : List Char} (ascii : IsAscii s) :
    (ofJson s).FitsQuoted false ∧ (ofJson s).onOneLine = true := by
  induction s with
  | nil => exact ⟨List.forall_mem_nil _, rfl⟩
  | cons c s ih =>
    obtain ⟨first, later⟩ := List.forall_mem_cons.mp ascii
    obtain ⟨fits, line⟩ := ih later
    unfold ofJson
    by_cases space : c = ' '
    · rw [if_pos space]
      exact ⟨space_fits fits line, (onOneLine_space _).trans line⟩
    · rw [if_neg space]
      exact ⟨cons_fits (Piece.ofJson_fits first space) fits, (onOneLine_cons _ _).trans line⟩

theorem quoted_ofJson (s : List Char) : (ofJson s).quoted false = Json.Quoted.write s := by
  simp [quoted, text_ofJson, Json.Quoted.write]

end Words

/-! ## Integers -/

namespace Numeral

/-- An integer as JSON writes it. -/
def ofNat (n : Nat) : Numeral :=
  ⟨false, .decimal, (Nat.toDigits 10 n).map fun c => ⟨c.toNat - '0'.toNat, false⟩⟩

theorem digit_of_mem_toDigits {n : Nat} {c : Char} (mem : c ∈ Nat.toDigits 10 n) :
    c.isDigit = true ∧ c.toNat - '0'.toNat < 10 ∧ Nat.digitChar (c.toNat - '0'.toNat) = c := by
  have isDigit := Nat.isDigit_of_mem_toDigits (by decide) (by decide) mem
  have bounds := Char.isDigit_iff_toNat.mp isDigit
  have zero : '0'.toNat = 48 := rfl
  have nine : '9'.toNat = 57 := rfl
  have small : c.toNat - '0'.toNat < 10 := by omega
  have all : ∀ d < 10, Nat.digitChar d = Char.ofNat (d + '0'.toNat) := by decide
  refine ⟨isDigit, small, ?_⟩
  rw [all _ small, Nat.sub_add_cancel bounds.1, Char.ofNat_toNat]

theorem text_ofNat (n : Nat) : (ofNat n).text = Nat.toDigits 10 n := by
  have digits : ∀ c ∈ Nat.toDigits 10 n, Digit.char ⟨c.toNat - '0'.toNat, false⟩ = c :=
    fun c mem => (digit_of_mem_toDigits mem).2.2
  have same : (ofNat n).chars = Nat.toDigits 10 n := by
    rw [chars, ofNat, List.map_map]
    exact (List.map_congr_left digits).trans (List.map_id _)
  rw [text, same]
  rfl

theorem value_ofNat (n : Nat) : (ofNat n).value = n := by
  have fold : (ofNat n).value = Nat.ofDigitChars 10 (Nat.toDigits 10 n) 0 := by
    simp only [value, ofNat, Radix.base, List.foldl_map, Nat.ofDigitChars, Nat.mul_comm]
  rw [fold, Nat.ofDigitChars_ten_toDigits]

theorem ofNat_fits (n : Nat) : (ofNat n).Fits where
  nonempty := by simp [ofNat, Nat.toDigits_ne_nil]
  small := by
    intro d mem
    obtain ⟨c, digit, rfl⟩ := List.mem_map.mp mem
    exact (digit_of_mem_toDigits digit).2.1
  noZero := by
    intro _ long zero
    obtain ⟨c, cs, digits⟩ := List.exists_cons_of_ne_nil (Nat.toDigits_ne_nil (n := n) (b := 10))
    have first : c.toNat - '0'.toNat = 0 := by simpa [ofNat, digits] using zero
    have same := (digit_of_mem_toDigits (n := n) (by rw [digits]; simp : c ∈ _)).2.2
    rw [first] at same
    have head : (Nat.toDigits 10 n).head? = some '0' := by
      rw [digits, ← same]
      rfl
    rw [Json.Literal.head?_toDigits head] at long
    exact absurd long (by decide)

theorem isWord_of_mem_toDigits {n : Nat} {c : Char} (mem : c ∈ Nat.toDigits 10 n) :
    isWord c = true := by
  simp [isWord, Char.isAlphanum, (digit_of_mem_toDigits mem).1]

/-- An integer is a plain scalar inside of brackets. -/
theorem ofNat_plain (n : Nat) : (ScalarText.plain (.last (ofNat n).text)).Fits true 0 := by
  rw [text_ofNat]
  refine ⟨⟨Nat.toDigits_ne_nil, isWord_of_all fun c => isWord_of_mem_toDigits⟩, ?_⟩
  obtain ⟨c, cs, form⟩ := List.exists_cons_of_ne_nil (Nat.toDigits_ne_nil (n := n) (b := 10))
  obtain ⟨-, small, same⟩ := digit_of_mem_toDigits (n := n) (by rw [form]; simp : c ∈ _)
  have plain : ∀ d < 10, Nat.digitChar d ≠ '\ufeff' ∧ isIndicator (Nat.digitChar d) = false := by
    decide
  obtain ⟨noMark, noIndicator⟩ := plain _ small
  rw [same] at noMark noIndicator
  exact ⟨c, cs, form, noMark, .inl noIndicator⟩

end Numeral

end Spindle.Yaml
