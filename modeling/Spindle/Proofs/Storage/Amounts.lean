import Mathlib.Data.Rat.Floor
import Spindle.Storage.Size

/-!
# Amounts

The unit of an amount is the largest that is not above the bytes, or the next one where rounding
reaches it. Climbing to a unit keeps its size a power of a thousand that is not above the bytes.
-/

namespace Spindle.Amount

/-! ### The largest unit -/

/-- No larger unit that has a name is at most so many bytes. -/
structure LargestUnit (bytes unit : Nat) : Prop where
  named : unit ≤ Size.lastUnit
  notAbove : 1000 ^ unit ≤ bytes
  below : unit < Size.lastUnit → bytes < 1000 ^ (unit + 1)

theorem climb_spec {bytes left unit : Nat} (notAbove : 1000 ^ unit ≤ bytes) :
    ∃ found, climb bytes left unit (1000 ^ unit) = (found, 1000 ^ found) ∧ found ≤ unit + left ∧
      1000 ^ found ≤ bytes ∧ (found < unit + left → bytes < 1000 ^ (found + 1)) := by
  induction left generalizing unit with
  | zero => exact ⟨unit, rfl, Nat.le_refl unit, notAbove, fun less => absurd less (Nat.lt_irrefl _)⟩
  | succ left ih =>
    rw [climb, ← Nat.pow_succ]
    split
    · rename_i more
      rw [Nat.add_comm left 1, ← Nat.add_assoc]
      exact ih more
    · rename_i enough
      exact ⟨unit, rfl, Nat.le_add_right _ _, notAbove, fun _ => Nat.lt_of_not_le enough⟩

theorem climb_largestUnit {bytes : Nat} (pos : 0 < bytes) :
    ∃ unit, climb bytes Size.lastUnit 0 1 = (unit, 1000 ^ unit) ∧ LargestUnit bytes unit := by
  obtain ⟨unit, climbed, named, notAbove, below⟩ := @climb_spec bytes Size.lastUnit 0 pos
  rw [Nat.zero_add] at named below
  exact ⟨unit, climbed, named, notAbove, below⟩

theorem LargestUnit.mono {a b u v : Nat} (first : LargestUnit a u) (second : LargestUnit b v)
    (le : a ≤ b) : u ≤ v := by
  by_contra less
  have below := second.below (Nat.lt_of_lt_of_le (Nat.lt_of_not_le less) first.named)
  have powers : 1000 ^ (v + 1) ≤ 1000 ^ u :=
    Nat.pow_le_pow_right (by decide) (Nat.lt_of_not_le less)
  have above := first.notAbove
  omega

/-! ### Rounding -/

theorem round_mono {a b : Nat} (le : a ≤ b) (divisor : Nat) : round a divisor ≤ round b divisor :=
  Nat.div_le_div_right (by omega)

/-- Half a unit is a whole number of bytes, except that a byte has no half. -/
theorem half_unit (unit : Nat) : unit = 0 ∨ 2 * (1000 ^ unit / 2) = 1000 ^ unit := by
  cases unit with
  | zero => exact .inl rfl
  | succ unit =>
    rw [Nat.pow_succ]
    exact .inr (by omega)

theorem round_bounds (bytes unit : Nat) :
    2 * (1000 ^ unit * round bytes (1000 ^ unit)) ≤ 200 * bytes + 1000 ^ unit ∧
      200 * bytes + 1000 ^ unit < 2 * (1000 ^ unit * (round bytes (1000 ^ unit) + 1)) := by
  have pos : 0 < 1000 ^ unit := Nat.pow_pos (by decide)
  have atMost := Nat.mul_div_le (bytes * 100 + 1000 ^ unit / 2) (1000 ^ unit)
  have less := Nat.lt_mul_div_succ (bytes * 100 + 1000 ^ unit / 2) pos
  rw [← round] at atMost less
  obtain rfl | half := half_unit unit
  · rw [Nat.pow_zero] at *
    omega
  · omega

theorem round_eq_floor (bytes unit : Nat) :
    round bytes (1000 ^ unit) = ⌊(100 * bytes / 1000 ^ unit + 1 / 2 : ℚ)⌋₊ := by
  have pos : (0 : ℚ) < 1000 ^ unit := by positivity
  obtain ⟨atMost, less⟩ := round_bounds bytes unit
  generalize round bytes (1000 ^ unit) = q at atMost less ⊢
  have atMost : 2 * ((1000 : ℚ) ^ unit * q) ≤ 200 * bytes + 1000 ^ unit := mod_cast atMost
  have less : 200 * (bytes : ℚ) + 1000 ^ unit < 2 * (1000 ^ unit * (q + 1)) := mod_cast less
  have sum : (100 * bytes / 1000 ^ unit + 1 / 2 : ℚ) =
      (200 * bytes + 1000 ^ unit) / (2 * 1000 ^ unit) := by
    field_simp
    ring
  symm
  rw [Nat.floor_eq_iff (by positivity), sum, le_div_iff₀ (by positivity), div_lt_iff₀ (by positivity)]
  constructor <;> linarith

/-- What is shown is nearest to the bytes, half a hundredth above them at most. -/
theorem round_nearest (bytes unit : Nat) :
    (bytes : ℚ) - 1000 ^ unit / 200 < round bytes (1000 ^ unit) / 100 * 1000 ^ unit ∧
      (round bytes (1000 ^ unit) / 100 * 1000 ^ unit : ℚ) ≤ bytes + 1000 ^ unit / 200 := by
  obtain ⟨atMost, less⟩ := round_bounds bytes unit
  generalize round bytes (1000 ^ unit) = q at atMost less ⊢
  have atMost : 2 * ((1000 : ℚ) ^ unit * q) ≤ 200 * bytes + 1000 ^ unit := mod_cast atMost
  have less : 200 * (bytes : ℚ) + 1000 ^ unit < 2 * (1000 ^ unit * (q + 1)) := mod_cast less
  constructor <;> linarith

section
variable {bytes unit : Nat} (largest : LargestUnit bytes unit)
include largest

theorem LargestUnit.le_round : 100 ≤ round bytes (1000 ^ unit) := by
  have pos : 0 < 1000 ^ unit := Nat.pow_pos (by decide)
  have notAbove := largest.notAbove
  rw [round, Nat.le_div_iff_mul_le pos]
  omega

/-- In the last unit no size of 64 bits comes near a thousand. -/
theorem LargestUnit.unit_lt (bound : bytes < 2 ^ 64) (thousand : 100000 ≤ round bytes (1000 ^ unit)) :
    unit < Size.lastUnit := by
  refine Nat.lt_of_le_of_ne largest.named fun last => ?_
  subst last
  have power : 1000 ^ Size.lastUnit = 1000000000000000000 := by decide
  have atMost := (round_bounds bytes Size.lastUnit).1
  rw [power] at atMost thousand
  omega

/-- What rounds up to a thousand of a unit is one of the next. -/
theorem LargestUnit.round_next (bound : bytes < 2 ^ 64)
    (thousand : 100000 ≤ round bytes (1000 ^ unit)) : round bytes (1000 ^ (unit + 1)) = 100 := by
  have below := largest.below (largest.unit_lt bound thousand)
  have atMost := (round_bounds bytes unit).1
  have product := Nat.mul_le_mul_left (1000 ^ unit) thousand
  rw [Nat.pow_succ] at below ⊢
  rw [round]
  apply Nat.div_eq_of_lt_le <;> omega

/-- The unit of an amount is the largest, or the next where rounding reaches it. -/
theorem LargestUnit.ofBytes_eq (bound : bytes < 2 ^ 64) :
    ofBytes bytes =
      if 100000 ≤ round bytes (1000 ^ unit) then ⟨100, unit + 1⟩
      else ⟨round bytes (1000 ^ unit), unit⟩ := by
  have pos : 0 < bytes := Nat.lt_of_lt_of_le (Nat.pow_pos (by decide)) largest.notAbove
  obtain ⟨found, climbed, other⟩ := climb_largestUnit pos
  obtain rfl : found = unit := Nat.le_antisymm (other.mono largest (Nat.le_refl bytes))
    (largest.mono other (Nat.le_refl bytes))
  rw [ofBytes, climbed]
  dsimp only
  by_cases thousand : 100000 ≤ round bytes (1000 ^ found)
  · rw [if_pos thousand, if_pos ⟨thousand, largest.unit_lt bound thousand⟩, ← Nat.pow_succ,
      largest.round_next bound thousand]
  · rw [if_neg thousand, if_neg fun both => thousand both.1]

end

/-! ### The amount of a number of bytes -/

/-- An amount that shows a number of bytes: they are rounded to hundredths of its unit, and the
unit is the largest that is not above them, or the next if rounding in the largest makes a thousand
of it. -/
structure Shows (bytes : Nat) (a : Amount) : Prop where
  rounded : a.hundredths = round bytes (1000 ^ a.unit)
  least : 100 ≤ a.hundredths
  most : a.hundredths < 100000
  unit : ∃ largest, LargestUnit bytes largest ∧
    (round bytes (1000 ^ largest) < 100000 ∧ a.unit = largest ∨
      100000 ≤ round bytes (1000 ^ largest) ∧ a.unit = largest + 1 ∧ a.hundredths = 100)

theorem ofBytes_shows {bytes : Nat} (pos : 0 < bytes) (bound : bytes < 2 ^ 64) :
    Shows bytes (ofBytes bytes) := by
  obtain ⟨unit, -, largest⟩ := climb_largestUnit pos
  rw [largest.ofBytes_eq bound]
  split
  · rename_i thousand
    exact ⟨(largest.round_next bound thousand).symm, Nat.le_refl 100, (by decide : 100 < 100000),
      unit, largest, .inr ⟨thousand, rfl, rfl⟩⟩
  · rename_i less
    exact ⟨rfl, largest.le_round, Nat.lt_of_not_le less,
      unit, largest, .inl ⟨Nat.lt_of_not_le less, rfl⟩⟩

namespace Shows

variable {a b : Nat} {x y : Amount}

theorem unit_le (shows : Shows a x) (bound : a < 2 ^ 64) : x.unit ≤ Size.lastUnit := by
  obtain ⟨unit, largest, ⟨-, same⟩ | ⟨thousand, next, -⟩⟩ := shows.unit
  · exact same ▸ largest.named
  · exact next ▸ largest.unit_lt bound thousand

variable (first : Shows a x) (second : Shows b y) (le : a ≤ b)
include first second le

theorem unit_mono : x.unit ≤ y.unit := by
  obtain ⟨u, largest, plain | promoted⟩ := first.unit <;>
    obtain ⟨v, largest', plain' | promoted'⟩ := second.unit <;>
    have larger := largest.mono largest' le
  · omega
  · omega
  · -- the larger number reaches a thousand of the same unit, if the smaller does
    by_contra less
    obtain rfl : u = v := by omega
    have mono := round_mono le (1000 ^ u)
    omega
  · omega

theorem hundredths_mono (same : x.unit = y.unit) : x.hundredths ≤ y.hundredths := by
  rw [first.rounded, second.rounded, same]
  exact round_mono le _

end Shows

end Spindle.Amount
