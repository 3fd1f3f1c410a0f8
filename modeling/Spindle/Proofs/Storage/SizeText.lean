import Spindle.Proofs.Json.Tokens
import Spindle.Proofs.Storage.Amounts

/-!
# Sizes as they are read

A size is written as a numeral and a unit. Read back, it says which hundredths of which unit are
meant, and larger sizes are read as no smaller amounts.
-/

namespace Spindle.Size

/-! ### Numerals -/

/-- The digits before and behind the point, which stands only if some are behind it. -/
structure Numeral where
  whole : List Char
  fraction : List Char
  deriving DecidableEq, Repr

namespace Numeral

def chars (x : Numeral) : List Char :=
  x.whole ++ if x.fraction = [] then [] else '.' :: x.fraction

def value (x : Numeral) : ℚ :=
  Nat.ofDigitChars 10 (x.whole ++ x.fraction) 0 / 10 ^ x.fraction.length

/-- The numeral with this text. -/
def read? (s : List Char) : Option Numeral :=
  let x : Numeral := ⟨s.takeWhile Char.isDigit, (s.dropWhile Char.isDigit).tail⟩
  if x.chars = s ∧ x.whole ≠ [] ∧ x.fraction.all Char.isDigit then some x else none

/-- Digits on both sides of the point, behind it two at most, and no zero at either end. -/
structure Canonical (x : Numeral) : Prop where
  notEmpty : x.whole ≠ []
  digits : ∀ c ∈ x.whole ++ x.fraction, c.isDigit
  lead : x.whole.head? ≠ some '0'
  places : x.fraction.length ≤ 2
  trail : x.fraction.getLast? ≠ some '0'

variable {x : Numeral} (canonical : x.Canonical)
include canonical

theorem Canonical.read?_chars : read? x.chars = some x := by
  obtain ⟨whole, fraction⟩ := x
  have digits := List.forall_mem_append.mp canonical.digits
  have taken : (chars ⟨whole, fraction⟩).takeWhile Char.isDigit = whole := by
    rw [chars, List.takeWhile_append_of_pos digits.1]
    split <;> simp
  have dropped : ((chars ⟨whole, fraction⟩).dropWhile Char.isDigit).tail = fraction := by
    rw [chars, List.dropWhile_append_of_pos digits.1]
    split <;> simp_all
  rw [read?]
  dsimp only
  rw [taken, dropped, if_pos ⟨rfl, canonical.notEmpty, List.all_eq_true.mpr digits.2⟩]

theorem Canonical.notMem_chars {c : Char} (other : c.isDigit = false) (noPoint : c ≠ '.') :
    c ∉ x.chars := by
  have notDigit : c ∉ x.whole ++ x.fraction := fun mem =>
    Bool.false_ne_true (other.symm.trans (canonical.digits _ mem))
  rw [List.mem_append, not_or] at notDigit
  rw [chars, List.mem_append, not_or]
  refine ⟨notDigit.1, ?_⟩
  split
  · exact List.not_mem_nil
  · rw [List.mem_cons, not_or]
    exact ⟨noPoint, notDigit.2⟩

end Numeral

/-! ### Readings -/

/-- What the text of a size says: so many of a unit. -/
structure Reading where
  unit : Nat
  numeral : Numeral
  deriving DecidableEq, Repr

namespace Reading

def chars (r : Reading) : List Char := r.numeral.chars ++ ' ' :: (units.getD r.unit "").toList

/-- The number of bytes, as far as the text tells it. -/
def amount (r : Reading) : ℚ := r.numeral.value * 1000 ^ r.unit

end Reading

/-- A numeral, a space and a unit. -/
def read? (text : String) : Option Reading := do
  let numeral ← Numeral.read? (text.toList.takeWhile (· ≠ ' '))
  let unit ← units.idxOf? (String.ofList (text.toList.dropWhile (· ≠ ' ')).tail)
  some ⟨unit, numeral⟩

theorem idxOf?_units {unit : Nat} (named : unit ≤ lastUnit) :
    units.idxOf? (units.getD unit "") = some unit := by
  have all : ∀ unit ≤ 6, units.idxOf? (units.getD unit "") = some unit := by decide
  exact all unit named

theorem read?_chars {r : Reading} (named : r.unit ≤ lastUnit) (canonical : r.numeral.Canonical)
    {text : String} (written : text.toList = r.chars) : read? text = some r := by
  have notBlank : ∀ c ∈ r.numeral.chars, decide (c ≠ ' ') = true := fun c mem =>
    decide_eq_true fun blank => canonical.notMem_chars rfl (by decide) (blank ▸ mem)
  have taken : text.toList.takeWhile (· ≠ ' ') = r.numeral.chars := by
    rw [written, Reading.chars, List.takeWhile_append_of_pos notBlank]
    simp
  have dropped : text.toList.dropWhile (· ≠ ' ') = ' ' :: (units.getD r.unit "").toList := by
    rw [written, Reading.chars, List.dropWhile_append_of_pos notBlank]
    simp
  rw [read?, taken, dropped, canonical.read?_chars, List.tail_cons, String.ofList_toList,
    idxOf?_units named]
  rfl

end Size

namespace Amount

/-! ### The text of an amount -/

/-- The numeral of an amount, without zeros at the end. -/
def digits (a : Amount) : Size.Numeral where
  whole := Nat.toDigits 10 (a.hundredths / 100)
  fraction :=
    if a.hundredths % 100 = 0 then []
    else if a.hundredths % 10 = 0 then [Nat.digitChar (a.hundredths % 100 / 10)]
    else [Nat.digitChar (a.hundredths % 100 / 10), Nat.digitChar (a.hundredths % 10)]

def reading (a : Amount) : Size.Reading := ⟨a.unit, a.digits⟩

theorem toList_numeral (a : Amount) : a.numeral.toList = a.digits.chars := by
  have last : a.hundredths % 100 % 10 = a.hundredths % 10 := by omega
  have tens : a.hundredths % 100 / 10 < 10 := by omega
  have ones : a.hundredths % 10 < 10 := by omega
  rw [numeral, digits, Size.Numeral.chars, last]
  split
  · simp
  · split <;> simp [Nat.toDigits_of_lt_base tens, Nat.toDigits_of_lt_base ones]

theorem toList_text (a : Amount) : a.text.toList = a.reading.chars := by
  rw [text, String.toList_append, String.toList_append, toList_numeral]
  simp [Size.Reading.chars, reading]

theorem ofDigitChars_digits (a : Amount) :
    Nat.ofDigitChars 10 (a.digits.whole ++ a.digits.fraction) 0 * 100 =
      a.hundredths * 10 ^ a.digits.fraction.length := by
  have tens : a.hundredths % 100 / 10 < 10 := by omega
  have ones : a.hundredths % 10 < 10 := by omega
  rw [digits]
  dsimp only
  rw [Nat.ofDigitChars_append, Nat.ofDigitChars_ten_toDigits]
  split
  · rw [Nat.ofDigitChars_nil, List.length_nil]
    omega
  · split
    · rw [Nat.ofDigitChars_cons_digitChar_of_lt_ten tens, Nat.ofDigitChars_nil,
        List.length_singleton]
      omega
    · rw [Nat.ofDigitChars_cons_digitChar_of_lt_ten tens,
        Nat.ofDigitChars_cons_digitChar_of_lt_ten ones, Nat.ofDigitChars_nil]
      change _ = _ * 10 ^ 2
      omega

theorem value_digits (a : Amount) : a.digits.value = a.hundredths / 100 := by
  rw [Size.Numeral.value, div_eq_div_iff (by positivity) (by norm_num)]
  exact mod_cast a.ofDigitChars_digits

theorem digits_canonical {a : Amount} (least : 100 ≤ a.hundredths) : a.digits.Canonical where
  notEmpty := Nat.toDigits_ne_nil
  digits c mem := by
    have tens : a.hundredths % 100 / 10 < 10 := by omega
    have ones : a.hundredths % 10 < 10 := by omega
    rw [digits, List.mem_append] at mem
    obtain whole | behind := mem
    · exact Nat.isDigit_of_mem_toDigits (by decide) (by decide) whole
    · split at behind
      · cases behind
      · split at behind
        · rw [List.mem_singleton.mp behind, Nat.isDigit_digitChar]
          exact decide_eq_true tens
        · simp only [List.mem_cons, List.not_mem_nil, or_false] at behind
          obtain rfl | rfl := behind
          · exact Nat.isDigit_digitChar.trans (decide_eq_true tens)
          · exact Nat.isDigit_digitChar.trans (decide_eq_true ones)
  lead zero := by
    have := Json.Literal.head?_toDigits zero
    omega
  places := by
    rw [digits]
    dsimp only
    split
    · exact Nat.zero_le 2
    · split <;> simp
  trail zero := by
    rw [digits] at zero
    dsimp only at zero
    split at zero
    · cases zero
    · split at zero
      · have := Nat.digitChar_eq_zero.mp (Option.some.inj zero)
        omega
      · have := Nat.digitChar_eq_zero.mp (Option.some.inj zero)
        omega

end Amount

namespace Size

/-! ### What a size is read as -/

/-- A reading of the text for a number of bytes. -/
structure Reading.Shows (r : Reading) (bytes : Nat) : Prop where
  named : r.unit ≤ lastUnit
  canonical : r.numeral.Canonical
  /-- The numeral says how many hundredths there are, rounded half up. -/
  rounded : ∃ q : Nat, r.numeral.value = q / 100 ∧
    q = ⌊(100 * bytes / 1000 ^ r.unit + 1 / 2 : ℚ)⌋₊ ∧ 100 ≤ q ∧ q < 100000
  /-- Halves go up. -/
  nearest : bytes - 1000 ^ r.unit / 200 < r.amount ∧ r.amount ≤ bytes + 1000 ^ r.unit / 200
  exact : r.unit = 0 → r.amount = bytes
  /-- The unit is the largest that is not above the bytes, and the next just if rounding makes a
  thousand of it. -/
  unit : ∃ largest, Amount.LargestUnit bytes largest ∧
    (⌊(100 * bytes / 1000 ^ largest + 1 / 2 : ℚ)⌋₊ < 100000 ∧ r.unit = largest ∨
      100000 ≤ ⌊(100 * bytes / 1000 ^ largest + 1 / 2 : ℚ)⌋₊ ∧ r.unit = largest + 1 ∧
        r.numeral.chars = ['1'])

theorem reading_shows {bytes : Nat} {a : Amount} (shows : a.Shows bytes) (bound : bytes < 2 ^ 64) :
    a.reading.Shows bytes where
  named := shows.unit_le bound
  canonical := a.digits_canonical shows.least
  rounded := ⟨a.hundredths, a.value_digits,
    shows.rounded.trans (Amount.round_eq_floor bytes a.unit), shows.least, shows.most⟩
  nearest := by
    rw [Reading.amount, Amount.reading, a.value_digits, shows.rounded]
    exact Amount.round_nearest bytes a.unit
  exact byte := by
    have same : a.unit = 0 := byte
    have all : a.hundredths = bytes * 100 := by simpa [Amount.round, same] using shows.rounded
    rw [Reading.amount, Amount.reading, a.value_digits, all, same]
    push_cast
    ring
  unit := by
    obtain ⟨largest, isLargest, plain | ⟨thousand, next, hundred⟩⟩ := shows.unit
    · exact ⟨largest, isLargest, .inl (Amount.round_eq_floor bytes largest ▸ plain)⟩
    · refine ⟨largest, isLargest, .inr ⟨Amount.round_eq_floor bytes largest ▸ thousand, next, ?_⟩⟩
      show a.digits.chars = _
      rw [Amount.digits, hundred]
      decide

theorem format_of_ne {n : UInt64} (known : n ≠ unknown) :
    format (some n) = (Amount.ofBytes n.toNat).text := if_neg known

theorem format_reading {n : UInt64} (known : n ≠ unknown) :
    ∃ a : Amount, a.Shows n.toNat ∧ (format (some n)).toList = a.reading.chars := by
  have pos : 0 < n.toNat := Nat.pos_of_ne_zero fun zero => known (UInt64.toNat_inj.mp zero)
  refine ⟨.ofBytes n.toNat, Amount.ofBytes_shows pos n.toNat_lt, ?_⟩
  rw [format_of_ne known, Amount.toList_text]

/-- A known size is written in one way only, as a numeral of hundredths of its unit. -/
theorem format_canonical (n : UInt64) (known : n ≠ unknown) :
    ∃ r : Reading, (format (some n)).toList = r.chars ∧ r.Shows n.toNat ∧
      ∀ r' : Reading, r'.unit ≤ lastUnit → r'.numeral.Canonical →
        (format (some n)).toList = r'.chars → r' = r := by
  obtain ⟨a, shows, written⟩ := format_reading known
  have reading := reading_shows shows n.toNat_lt
  refine ⟨a.reading, written, reading, fun r' named canonical written' => ?_⟩
  have first := read?_chars reading.named reading.canonical written
  have second := read?_chars named canonical written'
  exact Option.some.inj (second.symm.trans first)

/-- Five bytes below a megabyte are rounded to a thousand kilobytes. -/
theorem nearMegabyte_canonical :
    (999995 : UInt64) ≠ unknown ∧ format (some 999995) = "1 MB" ∧
      Reading.Shows ⟨2, ⟨['1'], []⟩⟩ 999995 := by
  have known : (999995 : UInt64) ≠ unknown := by decide
  obtain ⟨r, -, shows, unique⟩ := format_canonical 999995 known
  have text : format (some 999995) = "1 MB" := by decide
  have canonical : Numeral.Canonical ⟨['1'], []⟩ := ⟨nofun, by simp, by decide, by decide, nofun⟩
  obtain rfl := unique ⟨2, ⟨['1'], []⟩⟩ (by decide) canonical (by rw [text]; decide)
  exact ⟨known, text, shows⟩

/-- The smallest amount of a unit is at least a thousand of the one before it. -/
theorem Reading.amount_le_of_unit_lt {r s : Reading} {m n : Nat} (first : r.Shows m)
    (second : s.Shows n) (less : r.unit < s.unit) : r.amount ≤ s.amount := by
  obtain ⟨q, value, -, -, most⟩ := first.rounded
  obtain ⟨q', value', -, least, -⟩ := second.rounded
  have most : (q : ℚ) < 100000 := mod_cast most
  have least : (100 : ℚ) ≤ q' := mod_cast least
  calc r.amount ≤ 1000 * 1000 ^ r.unit := by
        rw [Reading.amount, value]
        gcongr
        linarith
    _ = 1000 ^ (r.unit + 1) := by ring
    _ ≤ 1 * 1000 ^ s.unit := by
        rw [one_mul]
        exact pow_le_pow_right₀ (by norm_num) less
    _ ≤ s.amount := by
        rw [Reading.amount, value']
        gcongr
        linarith

/-- Read back, the text of a larger size says no less: neither its unit nor its numeral of the same
unit is smaller, nor is the amount. -/
theorem format_monotone (m n : UInt64) (known : m ≠ unknown) (le : m ≤ n) :
    ∃ r s : Reading, read? (format (some m)) = some r ∧ read? (format (some n)) = some s ∧
      (r.unit < s.unit ∨ r.unit = s.unit ∧ r.numeral.value ≤ s.numeral.value) ∧
      r.amount ≤ s.amount := by
  have known' : n ≠ unknown := by
    rintro rfl
    exact known (UInt64.le_zero_iff.mp le)
  obtain ⟨a, shows, written⟩ := format_reading known
  obtain ⟨b, shows', written'⟩ := format_reading known'
  have reading := reading_shows shows m.toNat_lt
  have reading' := reading_shows shows' n.toNat_lt
  refine ⟨a.reading, b.reading, read?_chars reading.named reading.canonical written,
    read?_chars reading'.named reading'.canonical written', ?_⟩
  obtain less | same := Nat.lt_or_eq_of_le (shows.unit_mono shows' le)
  · exact ⟨.inl less, Reading.amount_le_of_unit_lt reading reading' less⟩
  · have numerals : a.digits.value ≤ b.digits.value := by
      have := shows.hundredths_mono shows' le same
      rw [a.value_digits, b.value_digits]
      gcongr
    refine ⟨.inr ⟨same, numerals⟩, ?_⟩
    show a.digits.value * 1000 ^ a.unit ≤ b.digits.value * 1000 ^ b.unit
    rw [same]
    gcongr

theorem nearMegabyte_monotone :
    (999994 : UInt64) ≠ unknown ∧ (999994 : UInt64) ≤ 999995 ∧
      read? (format (some 999994)) = some ⟨1, ⟨['9', '9', '9'], ['9', '9']⟩⟩ ∧
      read? (format (some 999995)) = some ⟨2, ⟨['1'], []⟩⟩ ∧
      Reading.amount ⟨1, ⟨['9', '9', '9'], ['9', '9']⟩⟩ ≤ Reading.amount ⟨2, ⟨['1'], []⟩⟩ := by
  have known : (999994 : UInt64) ≠ unknown := by decide
  have le : (999994 : UInt64) ≤ 999995 := by decide
  obtain ⟨r, s, first, second, -, amounts⟩ := format_monotone 999994 999995 known le
  have first' : read? (format (some 999994)) = some ⟨1, ⟨['9', '9', '9'], ['9', '9']⟩⟩ := by decide
  have second' : read? (format (some 999995)) = some ⟨2, ⟨['1'], []⟩⟩ := by decide
  obtain rfl := Option.some.inj (first.symm.trans first')
  obtain rfl := Option.some.inj (second.symm.trans second')
  exact ⟨known, le, first', second', amounts⟩

end Size

end Spindle
