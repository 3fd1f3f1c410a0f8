import Mathlib.Algebra.Order.Ring.Cast
import Spindle.Proofs.Json.RoundTrip
import Spindle.Proofs.Schema.Validation

/-!
# Literals of integers

Which literals are read as integers of a word, and as which. A literal with a point or an exponent,
`-0`, and an integer that no word of 64 bits has, are doubles or no numbers at all.
-/

namespace Spindle

open Json

namespace Json.Literal

variable {l : Literal}

/-- The integer that a literal without point and exponent stands for. -/
def integer (l : Literal) : Int := if l.negative then -digitsValue l.whole else digitsValue l.whole

theorem IsPlain.value_eq (plain : l.IsPlain) : l.value = l.integer := by
  simp only [value, integer, plain.fraction, plain.exponent, Option.getD_none, List.append_nil,
    Option.elim_none, List.length_nil]
  split <;> simp

theorem digitsValue_cons (c : Char) (s : List Char) :
    digitsValue (c :: s) = 10 ^ s.length * (c.toNat - '0'.toNat) + digitsValue s := by
  rw [digitsValue, Nat.ofDigitChars_cons, Nat.ofDigitChars_eq_ofDigitChars_zero, Nat.mul_zero,
    Nat.zero_add]
  rfl

theorem WellFormed.digitsValue_pos (wellFormed : l.WellFormed) (notZero : l.whole ≠ ['0']) :
    0 < digitsValue l.whole := by
  obtain ⟨some, digits⟩ := wellFormed.whole
  obtain ⟨c, s, text⟩ := List.exists_cons_of_ne_nil some
  have digit := digits c (text ▸ List.mem_cons_self)
  have first : c ≠ '0' := fun zero => notZero (wellFormed.lead (by rw [text, zero]; rfl))
  have pos : 0 < c.toNat - '0'.toNat := by
    have least := (Char.isDigit_iff_toNat.mp digit).1
    have other : c.toNat ≠ '0'.toNat := fun same => first (Char.toNat_inj.mp same)
    omega
  rw [text, digitsValue_cons]
  exact Nat.add_pos_left (Nat.mul_pos (Nat.pow_pos (by decide)) pos) _

/-- A plain integer of the range of some word is read as that integer. -/
theorem IsPlain.number_eq (plain : l.IsPlain) (wellFormed : l.WellFormed)
    (least : -2 ^ 63 ≤ l.integer) (greatest : l.integer < 2 ^ 64) :
    l.number = .ok (.integer l.integer) := by
  have size : UInt64.size = 2 ^ 64 := rfl
  cases sign : l.negative with
  | false =>
    simp only [integer, sign, Bool.false_eq_true, if_false] at greatest ⊢
    rw [number, if_pos ⟨plain.fraction, plain.exponent, sign, by omega⟩]
  | true =>
    have pos := wellFormed.digitsValue_pos (plain.notMinusZero sign)
    simp only [integer, sign, if_true] at least ⊢
    rw [number, if_neg (by simp [sign]),
      if_pos ⟨plain.fraction, plain.exponent, sign, pos, by omega⟩]

theorem integer_of_number {z : Int} (number : l.number = .ok (.integer z)) :
    l.IsPlain ∧ l.integer = z := by
  unfold Literal.number at number
  dsimp only at number
  split at number
  · rename_i unsigned
    obtain ⟨fraction, exponent, sign, -⟩ := unsigned
    cases number
    exact ⟨⟨fraction, exponent, fun negative => by simp [sign] at negative⟩, by simp [integer, sign]⟩
  split at number
  · rename_i signed
    obtain ⟨fraction, exponent, sign, pos, -⟩ := signed
    cases number
    refine ⟨⟨fraction, exponent, fun _ zero => ?_⟩, by simp [integer, sign]⟩
    rw [zero] at pos
    exact absurd pos (by decide)
  · split at number <;> cases number

/-! ### Integers as they are written -/

theorem ofInt_isPlain (z : Int) : (ofInt z).IsPlain where
  fraction := rfl
  exponent := rfl
  notMinusZero negative zero := by
    have natAbs : Nat.ofDigitChars 10 (Nat.toDigits 10 z.natAbs) 0 = z.natAbs :=
      Nat.ofDigitChars_ten_toDigits
    have neg : z < 0 := of_decide_eq_true negative
    rw [show Nat.toDigits 10 z.natAbs = ['0'] from zero] at natAbs
    have : 0 = z.natAbs := natAbs
    omega

theorem integer_ofInt (z : Int) : (ofInt z).integer = z := by
  have digits : digitsValue (ofInt z).whole = z.natAbs := Nat.ofDigitChars_ten_toDigits
  rw [integer, digits, ofInt]
  dsimp only
  by_cases neg : z < 0
  · rw [if_pos (decide_eq_true neg)]
    omega
  · rw [if_neg (by simpa using neg)]
    omega

theorem value_ofInt (z : Int) : (ofInt z).value = z := by
  rw [(ofInt_isPlain z).value_eq, integer_ofInt]

/-! ### Literals of no integer -/

theorem scale_error {x : Float} {power : Int} {e : Error} (fails : scale x power = .error e) :
    e = .numberOutOfRange := by
  fun_induction scale x power with
  | case1 => exact (Except.error.inj fails).symm
  | case2 => cases fails
  | case3 => cases fails
  | case4 => cases fails
  | case5 => exact (Except.error.inj fails).symm
  | case6 _ _ _ _ _ ih => exact ih fails

theorem magnitude_error {x : Float} {significand : Nat} {shift power : Int} {e : Error}
    (fails : (if UInt32.size / 2 ≤ power.natAbs then
        if significand ≠ 0 ∧ 0 < power then .error .numberOutOfRange else .ok 0.0
      else scale x (shift + power)) = .error e) : e = .numberOutOfRange := by
  split at fails
  · split at fails
    · exact (Except.error.inj fails).symm
    · cases fails
  · exact scale_error fails

theorem float_error {e : Error} (fails : l.float = .error e) : e = .numberOutOfRange := by
  unfold float at fails
  dsimp only at fails
  split at fails
  · rename_i magnitude
    obtain rfl := Except.error.inj fails
    exact magnitude_error magnitude
  · cases fails

theorem number_error {e : Error} (fails : l.number = .error e) : e = .numberOutOfRange := by
  unfold number at fails
  dsimp only at fails
  split at fails
  · cases fails
  split at fails
  · cases fails
  split at fails
  · obtain rfl := Except.error.inj fails
    exact float_error ‹_›
  · cases fails

end Json.Literal

namespace Schema.Word

/-! ### Conversion to a word -/

/-- What a fault calls the word. -/
def name : Word → String
  | uint64 => "u64"
  | uint32 => "u32"
  | int32 => "i32"

theorem within {w : Word} {z : Int} (least : w.least ≤ z) (greatest : z ≤ w.greatest) :
    -2 ^ 63 ≤ z ∧ z < 2 ^ 64 := by
  cases w <;> simp only [Word.least, Word.greatest] at least greatest <;> omega

theorem holds_intCast {w : Word} {z : Int} : w.Holds z ↔ w.least ≤ z ∧ z ≤ w.greatest := by
  rw [Holds, Int.cast_le, Int.cast_le]

/-- The integers of the word and no others are converted, each to a value that stands for it. -/
structure Converts (w : Word) (convert : Int → Option I) (value : I → Int) : Prop where
  takes : ∀ z, w.least ≤ z → z ≤ w.greatest → ∃ n, convert z = some n
  range : ∀ z n, convert z = some n → w.least ≤ z ∧ z ≤ w.greatest
  same : ∀ z n, convert z = some n → value n = z

/-- Of the literals `read` takes the integers of the word and no others, each as it is. -/
structure ReadsExactly (w : Word) (value : I → Int) (read : Literal → Except Error S)
    (put : I → S) : Prop where
  accepts : ∀ l : Literal, l.WellFormed → ((∃ s, read l = .ok s) ↔ l.IsPlain ∧ w.Holds l.value)
  stores : ∀ l : Literal, l.WellFormed → ∀ s, read l = .ok s →
    ∃ n, (value n : ℚ) = l.value ∧ s = put n
  reports : ∀ l : Literal, l.WellFormed → l.IsPlain → ¬ w.Holds l.value →
    ∀ z : Int, l.value = z → -2 ^ 63 ≤ z → z < 2 ^ 64 →
      read l = .error (.wrongValue (.integer z) w.name)

section
variable {w : Word} {convert : Int → Option I} {value : I → Int} (converts : w.Converts convert value)
  {l : Literal} (wellFormed : l.WellFormed)
include converts wellFormed

theorem Converts.whole_eq_ok {n : I} :
    (Json.integer w.name convert).whole l.chars = .ok n ↔
      l.IsPlain ∧ convert l.integer = some n := by
  rw [integer_literal wellFormed]
  constructor
  · intro read
    split at read
    · cases read
    · cases read
    · rename_i z number
      obtain ⟨plain, rfl⟩ := Literal.integer_of_number number
      split at read
      · cases read
      · rename_i converted
        cases read
        exact ⟨plain, converted⟩
  · rintro ⟨plain, converted⟩
    obtain ⟨least, greatest⟩ := converts.range _ _ converted
    obtain ⟨low, high⟩ := within least greatest
    rw [plain.number_eq wellFormed low high]
    dsimp only
    rw [converted]

end

/-- The fault of a literal on its own is no fault of its end. -/
theorem closed_of_integer {expected : String} {convert : Int → Option I} {l : Literal}
    (wellFormed : l.WellFormed) {e : Error}
    (fails : (Json.integer expected convert).whole l.chars = .error e) : e.isOpen = false := by
  rw [integer_literal wellFormed] at fails
  split at fails
  · rename_i number
    obtain rfl := Except.error.inj fails
    rw [Literal.number_error number]
    rfl
  · cases fails
    rfl
  · split at fails
    · cases fails
      rfl
    · cases fails

theorem Converts.readsExactly {w : Word} {convert : Int → Option I} {value : I → Int}
    (converts : w.Converts convert value) :
    w.ReadsExactly value (fun l => (Json.integer w.name convert).whole l.chars) id where
  accepts l wellFormed := by
    constructor
    · rintro ⟨n, read⟩
      obtain ⟨plain, converted⟩ := (converts.whole_eq_ok wellFormed).mp read
      refine ⟨plain, ?_⟩
      rw [plain.value_eq, holds_intCast]
      exact converts.range _ _ converted
    · rintro ⟨plain, range⟩
      rw [plain.value_eq, holds_intCast] at range
      obtain ⟨n, converted⟩ := converts.takes _ range.1 range.2
      exact ⟨n, (converts.whole_eq_ok wellFormed).mpr ⟨plain, converted⟩⟩
  stores l wellFormed n read := by
    obtain ⟨plain, converted⟩ := (converts.whole_eq_ok wellFormed).mp read
    refine ⟨n, ?_, rfl⟩
    rw [plain.value_eq, converts.same _ _ converted]
  reports l wellFormed plain outside z value low high := by
    obtain rfl : l.integer = z := Rat.intCast_inj.mp (plain.value_eq.symm.trans value)
    rw [value, holds_intCast] at outside
    rw [integer_literal wellFormed, plain.number_eq wellFormed low high]
    dsimp only
    split
    · rfl
    · rename_i converted
      exact absurd (converts.range _ _ converted) outside

/-! ### The words of the format -/

theorem Converts.unsigned {w : Word} {size : Nat} {ofNat : Nat → I} {toNat : I → Nat}
    (least : w.least = 0) (greatest : w.greatest = size - 1)
    (toNat_ofNat : ∀ n < size, toNat (ofNat n) = n) :
    w.Converts (fun z => if 0 ≤ z ∧ z.toNat < size then some (ofNat z.toNat) else none)
      fun n => toNat n where
  takes z low high := by
    rw [least] at low
    rw [greatest] at high
    exact ⟨_, if_pos ⟨low, by omega⟩⟩
  range z n converted := by
    obtain ⟨range, -⟩ := Option.ite_none_right_eq_some.mp converted
    rw [least, greatest]
    omega
  same z n converted := by
    obtain ⟨⟨natural, small⟩, ⟨⟩⟩ := Option.ite_none_right_eq_some.mp converted
    rw [toNat_ofNat _ small]
    exact Int.toNat_of_nonneg natural

theorem converts_uint64 : uint64.Converts
    (fun z => if 0 ≤ z ∧ z.toNat < UInt64.size then some z.toNat.toUInt64 else none)
    fun n => n.toNat :=
  .unsigned rfl rfl fun _ => UInt64.toNat_ofNat_of_lt'

theorem converts_uint32 : uint32.Converts
    (fun z => if 0 ≤ z ∧ z.toNat < UInt32.size then some z.toNat.toUInt32 else none)
    fun n => n.toNat :=
  .unsigned rfl rfl fun _ => UInt32.toNat_ofNat_of_lt'

theorem converts_int32 : int32.Converts
    (fun z => if Int32.minValue.toInt ≤ z ∧ z ≤ Int32.maxValue.toInt then some z.toInt32 else none)
    Int32.toInt where
  takes z least greatest := by
    have least' : Int32.minValue.toInt = -2 ^ 31 := rfl
    have greatest' : Int32.maxValue.toInt = 2 ^ 31 - 1 := rfl
    simp only [Word.least, Word.greatest] at least greatest
    exact ⟨_, if_pos ⟨by omega, by omega⟩⟩
  range z n converted := by
    have least : Int32.minValue.toInt = -2 ^ 31 := rfl
    have greatest : Int32.maxValue.toInt = 2 ^ 31 - 1 := rfl
    obtain ⟨range, -⟩ := Option.ite_none_right_eq_some.mp converted
    simp only [Word.least, Word.greatest]
    omega
  same z n converted := by
    have least : Int32.minValue.toInt = -2 ^ 31 := rfl
    have greatest : Int32.maxValue.toInt = 2 ^ 31 - 1 := rfl
    obtain ⟨range, ⟨⟩⟩ := Option.ite_none_right_eq_some.mp converted
    exact Int32.toInt_ofInt_of_le (by omega) (by omega)

end Schema.Word

end Spindle
