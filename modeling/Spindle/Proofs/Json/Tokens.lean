import Spindle.Proofs.Json.Grammar
import Spindle.Proofs.Json.TokenPersistence

/-!
# Tokens are read

Words, the numbers and the strings of the grammar, and numbers and strings as they are written.
-/

namespace Spindle.Json

theorem readWord_append (word rest : List Char) : readWord word (word ++ rest) = .ok rest := by
  induction word with
  | nil => rfl
  | cons c word ih => rw [List.cons_append, readWord, if_pos rfl, ih]

/-! ### Numbers -/

theorem isBlank_of_startsNumber {c : Char} (starts : startsNumber c = true) : isBlank c = false := by
  cases blank : isBlank c with
  | false => rfl
  | true =>
    simp only [isBlank, Bool.or_eq_true, decide_eq_true_eq] at blank
    obtain ((rfl | rfl) | rfl) | rfl := blank <;> cases starts

namespace Literal

variable {e : Error} {rest : List Char}

theorem readDigits_append {digits : List Char} (isDigits : IsDigits digits)
    (ends : rest.takeWhile Char.isDigit = []) :
    readDigits e (digits ++ rest) = .ok (digits, rest) := by
  have taken : (digits ++ rest).takeWhile Char.isDigit = digits := by
    rw [List.takeWhile_append_of_pos isDigits.2, ends, List.append_nil]
  have dropped : (digits ++ rest).dropWhile Char.isDigit = rest := by
    rw [List.dropWhile_append_of_pos isDigits.2, dropWhile_of_takeWhile ends]
  exact readDigits_eq_ok.mpr ⟨isDigits.1, taken, dropped⟩

def fractionChars (fraction : Option (List Char)) : List Char :=
  fraction.elim [] fun digits => '.' :: digits

def exponentChars (exponent : Option Exponent) : List Char := exponent.elim [] Exponent.chars

theorem exponentChars_some (x : Exponent) (rest : List Char) :
    exponentChars (some x) ++ rest = x.mark :: (x.sign.toList ++ (x.digits ++ rest)) := by
  simp [exponentChars, Exponent.chars]

theorem chars_append (l : Literal) (rest : List Char) :
    l.chars ++ rest = (if l.negative then ['-'] else []) ++
      (l.whole ++ (fractionChars l.fraction ++ (exponentChars l.exponent ++ rest))) := by
  obtain ⟨negative, whole, fraction, exponent⟩ := l
  cases fraction <;> cases exponent <;> simp [chars, fractionChars, exponentChars]

theorem readSign_append {sign : Option Char} (isSign : ∀ c ∈ sign, c = '+' ∨ c = '-')
    {digits : List Char} (isDigits : IsDigits digits) (rest : List Char) :
    readSign (sign.toList ++ (digits ++ rest)) = (sign, digits ++ rest) := by
  cases sign with
  | some c => obtain rfl | rfl := isSign c rfl <;> rfl
  | none =>
    obtain ⟨notEmpty, allDigits⟩ := isDigits
    cases digits with
    | nil => cases notEmpty rfl
    | cons c digits =>
      have digit := allDigits c List.mem_cons_self
      show readSign (c :: (digits ++ rest)) = _
      unfold readSign
      split
      · rename_i same
        cases same
        cases digit
      · rename_i same
        cases same
        cases digit
      · rfl

theorem readExponent_append {exponent : Option Exponent}
    (isExponent : ∀ x ∈ exponent, IsExponent x) (delimits : Delimits rest) :
    readExponent e (exponentChars exponent ++ rest) = .ok (exponent, rest) := by
  cases exponent with
  | none => exact readExponent_eq_ok.mpr (.inl ⟨delimits.notMark, rfl, rfl⟩)
  | some x =>
    obtain ⟨mark, sign, digits⟩ := isExponent x rfl
    have signed := readSign_append sign digits rest
    refine readExponent_eq_ok.mpr (.inr ⟨x.mark, _, x.digits, exponentChars_some x rest, mark, ?_, ?_⟩)
    · rw [signed, readDigits_append digits (head_isDigit delimits)]
    · rw [signed]

/-- Neither digits nor a point stand where an exponent may. -/
theorem exponent_head {exponent : Option Exponent} (isExponent : ∀ x ∈ exponent, IsExponent x)
    (delimits : Delimits rest) {c : Char} (first : c ∈ (exponentChars exponent ++ rest).head?) :
    c.isDigit = false ∧ c ≠ '.' := by
  cases exponent with
  | none =>
    have ends := delimits c first
    simp only [continuesNumber, Bool.or_eq_false_iff, decide_eq_false_iff_not] at ends
    exact ⟨ends.1.1.1.1.1, ends.1.1.1.1.2⟩
  | some x =>
    obtain rfl := Option.some.inj first
    obtain mark | mark := (isExponent x rfl).mark <;> rw [mark] <;> decide

theorem takeWhile_isDigit {s : List Char} (h : ∀ c ∈ s.head?, c.isDigit = false) :
    s.takeWhile Char.isDigit = [] := by
  cases s with
  | nil => rfl
  | cons c s => simp [h c rfl]

theorem readFraction_append {fraction : Option (List Char)}
    (isFraction : ∀ digits ∈ fraction, IsDigits digits)
    (ends : ∀ c ∈ rest.head?, c.isDigit = false ∧ c ≠ '.') :
    readFraction e (fractionChars fraction ++ rest) = .ok (fraction, rest) := by
  cases fraction with
  | none => exact readFraction_of_head fun first => (ends '.' first).2 rfl
  | some digits =>
    have read := readDigits_append (e := e) (isFraction digits rfl)
      (takeWhile_isDigit fun c first => (ends c first).1)
    exact readFraction_eq_ok.mpr (.inr ⟨digits ++ rest, digits, rfl, read, rfl⟩)

theorem readMagnitude_append {l : Literal} (wellFormed : l.WellFormed) (delimits : Delimits rest) :
    readMagnitude e l.negative
        (l.whole ++ (fractionChars l.fraction ++ (exponentChars l.exponent ++ rest))) =
      .ok (l, rest) := by
  have afterFraction {c : Char} := exponent_head (c := c) wellFormed.exponent delimits
  have afterWhole : ∀ c ∈ (fractionChars l.fraction ++ (exponentChars l.exponent ++ rest)).head?,
      c.isDigit = false := by
    intro c first
    cases fraction : l.fraction with
    | none =>
      rw [fraction] at first
      exact (afterFraction first).1
    | some digits =>
      rw [fraction] at first
      obtain rfl := Option.some.inj first
      rfl
  have whole := readDigits_append (e := e) wellFormed.whole (takeWhile_isDigit afterWhole)
  exact readMagnitude_eq_ok.mpr ⟨rfl, _, _, readWhole_eq_ok.mpr ⟨whole, wellFormed.lead⟩,
    readFraction_append wellFormed.fraction fun c => afterFraction,
    readExponent_append wellFormed.exponent delimits⟩

theorem WellFormed.startsNumber {l : Literal} (wellFormed : l.WellFormed) :
    ∃ c s, l.chars = c :: s ∧ startsNumber c = true := by
  obtain ⟨notEmpty, digits⟩ := wellFormed.whole
  have text := l.chars_append []
  rw [List.append_nil] at text
  rw [text]
  cases l.negative with
  | true => exact ⟨'-', _, rfl, rfl⟩
  | false =>
    cases whole : l.whole with
    | nil => cases notEmpty whole
    | cons c whole' =>
      refine ⟨c, _, rfl, ?_⟩
      rw [Json.startsNumber, digits c (by simp [whole])]
      simp

theorem read_append {l : Literal} (wellFormed : l.WellFormed) (delimits : Delimits rest) :
    read e (l.chars ++ rest) = .ok (l, rest) := by
  rw [chars_append]
  cases negative : l.negative with
  | true =>
    show readMagnitude e true (l.whole ++ _) = _
    rw [← negative, readMagnitude_append wellFormed delimits]
  | false =>
    have noSign : (l.whole ++ (fractionChars l.fraction ++ (exponentChars l.exponent ++ rest))).head?
        ≠ some '-' := by
      obtain ⟨notEmpty, digits⟩ := wellFormed.whole
      cases whole : l.whole with
      | nil => cases notEmpty whole
      | cons c whole' =>
        intro first
        have digit := digits c (by simp [whole])
        obtain rfl := Option.some.inj first
        cases digit
    show read e (l.whole ++ _) = _
    rw [read_of_head noSign, ← negative, readMagnitude_append wellFormed delimits]

/-! #### Integers -/

theorem head?_toDigits {n : Nat} (zero : (Nat.toDigits 10 n).head? = some '0') : n = 0 := by
  induction n using Nat.strongRecOn with
  | ind n ih =>
    rw [Nat.toDigits_eq_if (by decide)] at zero
    split at zero
    · exact Nat.digitChar_eq_zero.mp (Option.some.inj zero)
    · have tens : n / 10 < n := by omega
      have first := List.head?_eq_some_head (Nat.toDigits_ne_nil (n := n / 10) (b := 10))
      rw [List.head?_append, first, Option.some_or, ← first] at zero
      have := ih (n / 10) tens zero
      omega

theorem ofInt_wellFormed (z : Int) : (ofInt z).WellFormed where
  whole := ⟨Nat.toDigits_ne_nil, fun _ digit =>
    Nat.isDigit_of_mem_toDigits (by decide) (by decide) digit⟩
  lead zero := by
    show Nat.toDigits 10 z.natAbs = ['0']
    rw [head?_toDigits zero]
    rfl
  fraction := nofun
  exponent := nofun

/-- An integer of at most 64 bits is written as a literal for itself. -/
theorem number_ofInt {z : Int} (least : (-z).toNat ≤ UInt64.size / 2)
    (most : z.toNat < UInt64.size) : (ofInt z).number = .ok (.integer z) := by
  have value : digitsValue (ofInt z).whole = z.natAbs := Nat.ofDigitChars_ten_toDigits
  by_cases neg : z < 0
  · have sign : (ofInt z).negative = true := decide_eq_true neg
    have abs : (z.natAbs : Int) = -z := Int.ofNat_natAbs_of_nonpos (Int.le_of_lt neg)
    rw [number, value, if_neg (by simp [sign]), if_pos ⟨rfl, rfl, sign, by omega, by omega⟩, abs,
      Int.neg_neg]
  · have sign : (ofInt z).negative = false := decide_eq_false neg
    have abs : (z.natAbs : Int) = z := Int.natAbs_of_nonneg (Int.not_lt.mp neg)
    rw [number, value, if_pos ⟨rfl, rfl, sign, by omega⟩, abs]

end Literal

/-! ### Strings -/

namespace Quoted

variable {strict : Bool}

/-! #### As they are written -/

theorem ofShortEscape?_shortEscape? {c letter : Char} (h : shortEscape? c = some letter) :
    ofShortEscape? letter = some c := by
  unfold shortEscape? at h
  split at h <;> cases h <;> rfl

theorem hexValue?_digitChar : ∀ n < 16, hexValue? (Nat.digitChar n) = some n := by decide

theorem escape_control {c : Char} (control : c.toNat < 0x20) :
    Escape strict ['u', '0', '0', Nat.digitChar (c.toNat / 16), Nat.digitChar (c.toNat % 16)] c := by
  have digits := FourDigits.mk (a := '0') (b := '0') rfl rfl
    (hexValue?_digitChar (c.toNat / 16) (by omega)) (hexValue?_digitChar (c.toNat % 16) (by omega))
  have sum : ((0 * 16 + 0) * 16 + c.toNat / 16) * 16 + c.toNat % 16 = c.toNat := by omega
  have notLow : isLowSurrogate c.toNat = false := by simp [isLowSurrogate]; omega
  have notHigh : isHighSurrogate c.toNat = false := by simp [isHighSurrogate]; omega
  have escape : Escape strict _ _ := .unit (sum ▸ digits) notLow notHigh
  rwa [Char.ofNat_toNat] at escape

theorem Reads.writeChar {s cs : List Char} (others : Reads strict s cs) (c : Char) :
    Reads strict (writeChar c ++ s) (c :: cs) := by
  unfold Quoted.writeChar
  cases short : shortEscape? c with
  | some letter => exact .escape (.short (ofShortEscape?_shortEscape? short)) others
  | none =>
    dsimp only
    split
    · rename_i control
      exact .escape (escape_control control) others
    · rename_i printable
      refine .plain (Nat.not_lt.mp printable) ?_ ?_ others
      · rintro rfl
        cases short
      · rintro rfl
        cases short

theorem reads_write (s : List Char) : Reads strict (s.flatMap writeChar) s := by
  induction s with
  | nil => exact .nil
  | cons c s ih => exact ih.writeChar c

theorem read_write (s rest : List Char) :
    Quoted.read strict (s.flatMap writeChar ++ '"' :: rest) = .ok (s, rest) :=
  read_eq_ok.mpr ⟨_, reads_write s, rfl⟩

/-! #### Of the grammar -/

theorem ofShortEscape?_of_mem {c : Char} (listed : c ∈ shortEscapes) :
    (ofShortEscape? c).isSome := by
  have all : shortEscapes.all (fun c => (ofShortEscape? c).isSome) = true := by decide
  exact List.all_eq_true.mp all c listed

theorem hexValue?_of_isHexDigit {c : Char} (hex : IsHexDigit c) :
    ∃ n, hexValue? c = some n := by
  have all : "0123456789abcdefABCDEF".toList.all (fun c => (hexValue? c).isSome) = true := by decide
  exact Option.isSome_iff_exists.mp (List.all_eq_true.mp all c hex)

theorem exists_escape {h : List Char} (four : h.length = 4) (hex : ∀ c ∈ h, IsHexDigit c) :
    ∃ c, Escape false ('u' :: h) c := by
  match h, four with
  | [a, b, c, d], _ =>
    obtain ⟨_, first⟩ := hexValue?_of_isHexDigit (hex a (by simp))
    obtain ⟨_, second⟩ := hexValue?_of_isHexDigit (hex b (by simp))
    obtain ⟨_, third⟩ := hexValue?_of_isHexDigit (hex c (by simp))
    obtain ⟨_, fourth⟩ := hexValue?_of_isHexDigit (hex d (by simp))
    have digits := FourDigits.mk first second third fourth
    generalize ((_ * 16 + _) * 16 + _) * 16 + _ = n at digits
    cases low : isLowSurrogate n with
    | true => exact ⟨_, .half rfl digits (.inl low)⟩
    | false =>
      cases high : isHighSurrogate n with
      | true => exact ⟨_, .half rfl digits (.inr high)⟩
      | false => exact ⟨_, .unit digits low high⟩

theorem exists_reads {s : List Char} (body : IsBody s) : ∃ cs, Reads false s cs := by
  induction body with
  | nil => exact ⟨[], .nil⟩
  | plain printable notQuote notBackslash _ ih =>
    obtain ⟨cs, reads⟩ := ih
    exact ⟨_, .plain printable notQuote notBackslash reads⟩
  | short listed _ ih =>
    obtain ⟨cs, reads⟩ := ih
    obtain ⟨_, known⟩ := Option.isSome_iff_exists.mp (ofShortEscape?_of_mem listed)
    exact ⟨_, .escape (.short known) reads⟩
  | unit four hex _ ih =>
    obtain ⟨cs, reads⟩ := ih
    obtain ⟨_, escape⟩ := exists_escape four hex
    exact ⟨_, .escape escape reads⟩

theorem read_body {s : List Char} (body : IsBody s) :
    ∃ cs, ∀ rest, Quoted.read false (s ++ '"' :: rest) = .ok (cs, rest) := by
  obtain ⟨cs, reads⟩ := exists_reads body
  exact ⟨cs, fun rest => read_eq_ok.mpr ⟨s, reads, rfl⟩⟩

end Quoted

/-! ### Values without parts -/

namespace Document

variable {strict : Bool}

/-- A text that is read as the value and has no parts, whatever delimits it. -/
def IsLeaf (strict : Bool) (text : List Char) (v : Value) : Prop :=
  ∃ c s, text = c :: s ∧ isBlank c = false ∧
    ∀ rest, Delimits rest → Leaf strict c (s ++ rest) v rest

theorem isLeaf_null : IsLeaf strict ['n', 'u', 'l', 'l'] .null :=
  ⟨_, _, rfl, rfl, fun rest _ => .null (readWord_append _ rest)⟩

theorem isLeaf_boolean (b : Bool) : IsLeaf strict (Value.booleanChars b) (.boolean b) := by
  cases b with
  | true => exact ⟨_, _, rfl, rfl, fun rest _ => .yes (readWord_append _ rest)⟩
  | false => exact ⟨_, _, rfl, rfl, fun rest _ => .no (readWord_append _ rest)⟩

theorem isLeaf_number {l : Literal} (wellFormed : l.WellFormed) :
    IsLeaf strict l.chars (.number l) := by
  obtain ⟨c, s, text, starts⟩ := wellFormed.startsNumber
  refine ⟨c, s, text, isBlank_of_startsNumber starts, fun rest delimits => .number starts ?_⟩
  rw [← List.cons_append, ← text, Literal.read_append wellFormed delimits]

theorem isLeaf_string {s cs : List Char}
    (reads : ∀ rest, Quoted.read strict (s ++ '"' :: rest) = .ok (cs, rest)) :
    IsLeaf strict ('"' :: (s ++ ['"'])) (.string (String.ofList cs)) := by
  refine ⟨_, _, rfl, rfl, fun rest _ => .string ?_⟩
  rw [List.append_assoc, List.singleton_append, reads]

end Document

end Spindle.Json
