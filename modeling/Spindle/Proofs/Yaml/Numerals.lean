import Spindle.Yaml.Scalar

/-!
# Numerals

Unsigned integers as they are written: in decimal, or in another base after its mark.
-/

namespace Spindle.Yaml

inductive Radix where
  | decimal
  | hexadecimal
  | octal
  | binary
  deriving DecidableEq, Repr

namespace Radix

def base : Radix → Nat
  | decimal => 10
  | hexadecimal => 16
  | octal => 8
  | binary => 2

def mark : Radix → List Char
  | decimal => []
  | hexadecimal => ['0', 'x']
  | octal => ['0', 'o']
  | binary => ['0', 'b']

end Radix

/-- A digit; those above nine are letters of either case. -/
structure Digit where
  value : Nat
  upper : Bool
  deriving DecidableEq, Repr

def Digit.char (d : Digit) : Char :=
  if d.upper then (Nat.digitChar d.value).toUpper else Nat.digitChar d.value

structure Numeral where
  plus : Bool
  radix : Radix
  digits : List Digit
  deriving DecidableEq, Repr

namespace Numeral

def chars (n : Numeral) : List Char := n.digits.map Digit.char

def text (n : Numeral) : List Char := (if n.plus then ['+'] else []) ++ (n.radix.mark ++ n.chars)

def value (n : Numeral) : Nat := n.digits.foldl (fun v d => v * n.radix.base + d.value) 0

/-- There are digits, all of the base, and in decimal no leading zeros. -/
structure Fits (n : Numeral) : Prop where
  nonempty : n.digits ≠ []
  small : ∀ d ∈ n.digits, d.value < n.radix.base
  noZero : n.radix = .decimal → 1 < n.digits.length → n.digits.head?.map Digit.value ≠ some 0

end Numeral

/-! ## Digits -/

theorem Digit.hexValue?_char {d : Digit} (small : d.value < 16) :
    hexValue? d.char = some d.value := by
  have all : ∀ v < 16, ∀ u, hexValue? (Digit.char ⟨v, u⟩) = some v := by decide
  exact all d.value small d.upper

theorem Digit.char_decimal {d : Digit} (small : d.value < 10) :
    d.char.isDigit = true ∧ (d.char = '0' ↔ d.value = 0) := by
  have all : ∀ v < 10, ∀ u, (Digit.char ⟨v, u⟩).isDigit = true ∧
      (Digit.char ⟨v, u⟩ = '0' ↔ v = 0) := by decide
  exact all d.value small d.upper

theorem Radix.base_le (r : Radix) : r.base ≤ 16 := by
  cases r <;> decide

namespace Numeral

variable {n : Numeral}

theorem number?_chars (fits : n.Fits) : number? n.radix.base n.chars = some n.value := by
  have digits : ∀ (ds : List Digit) (v : Nat), (∀ d ∈ ds, d.value < n.radix.base) →
      (ds.map Digit.char).foldlM (fun v c => (hexValue? c).bind fun d =>
        if d < n.radix.base then some (v * n.radix.base + d) else none) v =
      some (ds.foldl (fun v d => v * n.radix.base + d.value) v) := by
    intro ds
    induction ds with
    | nil => exact fun v _ => rfl
    | cons d ds ih =>
      intro v small
      have here := small d (by simp)
      have value : hexValue? d.char = some d.value :=
        d.hexValue?_char (Nat.lt_of_lt_of_le here n.radix.base_le)
      simp only [List.map_cons, List.foldlM_cons, value, Option.bind_some, if_pos here,
        List.foldl_cons]
      exact ih _ fun d mem => small d (by simp [mem])
  have nonempty : n.chars ≠ [] := by simp [chars, fits.nonempty]
  rw [number?, if_neg nonempty]
  exact digits n.digits 0 fits.small

theorem isDigit_chars (fits : n.Fits) (decimal : n.radix = .decimal) :
    ∀ c ∈ n.chars, c.isDigit = true := by
  intro c mem
  obtain ⟨d, mem', rfl⟩ := List.mem_map.mp mem
  have small := fits.small d mem'
  rw [decimal] at small
  exact (d.char_decimal small).1

theorem afterMark?_eq_none {mark : Char} {s : List Char} (digits : ∀ c ∈ s, c.isDigit = true)
    (other : mark.isDigit = false) : afterMark? mark s = none := by
  unfold afterMark?
  split
  · rename_i c rest
    refine if_neg ?_
    rintro rfl
    rw [digits c (by simp)] at other
    cases other
  · rfl

theorem marked?_text (fits : n.Fits) : marked? (n.radix.mark ++ n.chars) = some n.value := by
  have number := number?_chars fits
  cases radix : n.radix with
  | decimal =>
    have digits := isDigit_chars fits radix
    rw [radix] at number
    simp [marked?, Radix.mark, afterMark?_eq_none digits, ← number, Radix.base]
  | hexadecimal =>
    rw [radix] at number
    simp [marked?, Radix.mark, afterMark?, ← number, Radix.base]
  | octal =>
    rw [radix] at number
    simp [marked?, Radix.mark, afterMark?, ← number, Radix.base]
  | binary =>
    rw [radix] at number
    simp [marked?, Radix.mark, afterMark?, ← number, Radix.base]

/-- A numeral without its sign starts with a digit, and not with a needless zero. -/
theorem unsigned_form (fits : n.Fits) :
    ∃ c rest, n.radix.mark ++ n.chars = c :: rest ∧ c.isDigit = true ∧
      ¬ (1 < (c :: rest).length ∧ c = '0' ∧ (c :: rest).all Char.isDigit = true) := by
  cases radix : n.radix with
  | decimal =>
    obtain ⟨d, ds, digits⟩ := List.exists_cons_of_ne_nil fits.nonempty
    have small := fits.small d (by simp [digits])
    rw [radix] at small
    obtain ⟨isDigit, isZero⟩ := d.char_decimal small
    refine ⟨d.char, ds.map Digit.char, by simp [Radix.mark, chars, digits], isDigit, ?_⟩
    rintro ⟨long, zero, -⟩
    have noZero := fits.noZero radix (by simpa [digits] using long)
    simp [digits, isZero.mp zero] at noZero
  | hexadecimal => exact ⟨'0', 'x' :: n.chars, rfl, rfl, by simp⟩
  | octal => exact ⟨'0', 'o' :: n.chars, rfl, rfl, by simp⟩
  | binary => exact ⟨'0', 'b' :: n.chars, rfl, rfl, by simp⟩

theorem unsigned?_text (fits : n.Fits) : unsigned? n.text = some n.value := by
  obtain ⟨c, rest, form, isDigit, noZero⟩ := unsigned_form fits
  have marked := marked?_text fits
  rw [form] at marked
  have notPlus : c ≠ '+' := by
    rintro rfl
    cases isDigit
  have notMinus : c ≠ '-' := by
    rintro rfl
    cases isDigit
  cases plus : n.plus with
  | true =>
    have text : n.text = '+' :: c :: rest := by
      rw [Numeral.text, form, plus]
      rfl
    have needed : hasNeedlessZero ('+' :: c :: rest) = false := by
      simp_all [hasNeedlessZero]
    rw [text, unsigned?, needed]
    exact marked
  | false =>
    have text : n.text = c :: rest := by
      rw [Numeral.text, form, plus]
      rfl
    have needed : hasNeedlessZero (c :: rest) = false := by
      simp_all [hasNeedlessZero]
    rw [text, unsigned?, needed]
    · simp [marked]
    · intro rest' same
      exact notPlus (List.cons.inj same).1

end Numeral

/-- The integer that a plain numeral is. -/
theorem Scalar.word?_numeral {n : Numeral} (fits : n.Fits) (small : n.value < UInt64.size)
    (tag : Option String) :
    Scalar.word? ⟨String.ofList n.text, .plain, tag⟩ = some n.value.toUInt64 := by
  simp [word?, Numeral.unsigned?_text fits, small]

end Spindle.Yaml
