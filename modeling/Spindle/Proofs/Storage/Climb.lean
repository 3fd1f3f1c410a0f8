import Spindle.Proofs.Storage.SizeText

/-!
# The climb to a unit, in words

Each turn of the climb keeps the size of the unit a power of a thousand that is not above the bytes.
From this invariant there are six turns at most, and in words of 128 bits no operation overflows,
divides by zero or looks for a unit that has no name: the text is that of unbounded numbers.
-/

namespace Spindle

namespace Amount

/-! ### Turns -/

/-- Where a climb stands: a unit and its size in bytes. -/
structure Rung where
  unit : Nat
  divisor : Nat
  deriving DecidableEq, Repr

namespace Rung

def lowest : Rung := ⟨0, 1⟩

def up (r : Rung) : Rung := ⟨r.unit + 1, r.divisor * 1000⟩

/-- There is a next unit, and it is not above the bytes. -/
def Continues (bytes : Nat) (r : Rung) : Prop :=
  r.unit < Size.lastUnit ∧ r.divisor * 1000 ≤ bytes

/-- The rung that so many turns lead to. -/
inductive After (bytes : Nat) : Nat → Rung → Prop
  | start : After bytes 0 lowest
  | turn {turns : Nat} {r : Rung} :
    After bytes turns r → r.Continues bytes → After bytes (turns + 1) r.up

/-- What every turn keeps. -/
structure Sound (bytes : Nat) (r : Rung) : Prop where
  power : r.divisor = 1000 ^ r.unit
  named : r.unit ≤ Size.lastUnit
  notAbove : r.divisor ≤ bytes

variable {bytes turns : Nat} {r : Rung}

theorem Sound.up (sound : Sound bytes r) (continues : r.Continues bytes) : Sound bytes r.up where
  power := by rw [Rung.up, sound.power, Nat.pow_succ]
  named := continues.1
  notAbove := continues.2

theorem After.sound (pos : 0 < bytes) (after : After bytes turns r) : Sound bytes r := by
  induction after with
  | start => exact ⟨rfl, Nat.zero_le _, pos⟩
  | turn _ continues ih => exact ih.up continues

/-- Each turn goes up by one unit. -/
theorem After.unit_eq (after : After bytes turns r) : r.unit = turns := by
  induction after with
  | start => rfl
  | turn _ _ ih => rw [Rung.up, ih]

theorem Sound.divisor_ne_zero (sound : Sound bytes r) : r.divisor ≠ 0 := by
  rw [sound.power]
  exact Nat.ne_of_gt (Nat.pow_pos (by decide))

/-- Where the climb stops, it has come to the largest unit. -/
theorem Sound.largestUnit (sound : Sound bytes r) (stops : ¬ r.Continues bytes) :
    LargestUnit bytes r.unit where
  named := sound.named
  notAbove := sound.power ▸ sound.notAbove
  below less := by
    rw [Nat.pow_succ, ← sound.power]
    exact Nat.lt_of_not_le fun more => stops ⟨less, more⟩

/-- A thousand of the unit where the climb stops is one of the next unit, which there is. -/
theorem Sound.round_up (sound : Sound bytes r) (stops : ¬ r.Continues bytes) (bound : bytes < 2 ^ 64)
    (thousand : 100000 ≤ round bytes r.divisor) :
    r.unit < Size.lastUnit ∧ round bytes r.up.divisor = 100 := by
  have largest := sound.largestUnit stops
  rw [sound.power] at thousand
  rw [Rung.up, sound.power, ← Nat.pow_succ]
  exact ⟨largest.unit_lt bound thousand, largest.round_next bound thousand⟩

/-- Words of 128 bits have room for everything that is made of a rung. -/
theorem Sound.small (sound : Sound bytes r) (bound : bytes < 2 ^ 64) :
    r.divisor * 1000 < 2 ^ 128 ∧ bytes * 100 + r.divisor / 2 < 2 ^ 128 ∧
      bytes * 100 + r.up.divisor / 2 < 2 ^ 128 := by
  have notAbove := sound.notAbove
  have next : r.up.divisor = r.divisor * 1000 := rfl
  omega

end Rung

/-! ### Operations on words -/

/-- What an operation of the machine can fail with. -/
inductive Trap where
  | overflow
  | zeroDivisor
  | outOfRange
  deriving DecidableEq, Repr

/-- The result of an operation, if a word of 128 bits holds it. -/
def word (n : Nat) : Except Trap Nat := if n < 2 ^ 128 then .ok n else .error .overflow

def quotient (a b : Nat) : Except Trap Nat := if b = 0 then .error .zeroDivisor else .ok (a / b)

def entry (texts : List String) (place : Nat) : Except Trap String :=
  match texts[place]? with
  | none => .error .outOfRange
  | some text => .ok text

theorem word_eq_ok {n : Nat} (holds : n < 2 ^ 128) : word n = .ok n := if_pos holds

theorem quotient_eq_ok (a : Nat) {b : Nat} (pos : b ≠ 0) : quotient a b = .ok (a / b) := if_neg pos

theorem entry_eq_ok {texts : List String} {place : Nat} (inRange : place < texts.length) :
    entry texts place = .ok (texts.getD place "") := by
  rw [entry, List.getD_eq_getElem?_getD, List.getElem?_eq_getElem inRange]
  rfl

/-- The climb as a loop over words. -/
def climbInWords (bytes : Nat) (r : Rung) : Except Trap Rung :=
  if r.unit < Size.lastUnit then
    match word (r.divisor * 1000) with
    | .error trap => .error trap
    | .ok next => if next ≤ bytes then climbInWords bytes ⟨r.unit + 1, next⟩ else .ok r
  else .ok r
termination_by Size.lastUnit - r.unit

def roundInWords (bytes divisor : Nat) : Except Trap Nat := do
  let hundredfold ← word (bytes * 100)
  let half ← quotient divisor 2
  let sum ← word (hundredfold + half)
  quotient sum divisor

def ofBytesInWords (bytes : Nat) : Except Trap Amount := do
  let r ← climbInWords bytes .lowest
  let hundredths ← roundInWords bytes r.divisor
  if 100000 ≤ hundredths ∧ r.unit < Size.lastUnit then
    let divisor ← word (r.divisor * 1000)
    let hundredths ← roundInWords bytes divisor
    return ⟨hundredths, r.unit + 1⟩
  else return ⟨hundredths, r.unit⟩

def textInWords (bytes : Nat) : Except Trap String := do
  let a ← ofBytesInWords bytes
  let unit ← entry Size.units a.unit
  return a.numeral ++ " " ++ unit

/-! ### No operation fails -/

variable {bytes : Nat} (bound : bytes < 2 ^ 64)
include bound

theorem roundInWords_eq {divisor : Nat} (pos : divisor ≠ 0) (near : divisor ≤ bytes * 1000) :
    roundInWords bytes divisor = .ok (round bytes divisor) := by
  have hundredfold : bytes * 100 < 2 ^ 128 := by omega
  have sum : bytes * 100 + divisor / 2 < 2 ^ 128 := by omega
  rw [roundInWords, word_eq_ok hundredfold, quotient_eq_ok _ (by decide)]
  dsimp only [bind, Except.bind]
  rw [word_eq_ok sum]
  exact quotient_eq_ok _ pos

/-- From every rung the climb, in words or not, goes up to a rung where it stops. -/
theorem climb_stops {left turns : Nat} {r : Rung} (pos : 0 < bytes)
    (after : Rung.After bytes turns r) (room : r.unit + left = Size.lastUnit) :
    ∃ turns' s, Rung.After bytes turns' s ∧ ¬ s.Continues bytes ∧
      climb bytes left r.unit r.divisor = (s.unit, s.divisor) ∧ climbInWords bytes r = .ok s := by
  induction left generalizing turns r with
  | zero =>
    have last : ¬ r.unit < Size.lastUnit := by omega
    refine ⟨turns, r, after, fun continues => last continues.1, rfl, ?_⟩
    rw [climbInWords, if_neg last]
  | succ left ih =>
    have notLast : r.unit < Size.lastUnit := by omega
    have next : word (r.divisor * 1000) = .ok (r.divisor * 1000) :=
      word_eq_ok ((after.sound pos).small bound).1
    rw [climb, climbInWords, if_pos notLast, next]
    dsimp only
    by_cases more : r.divisor * 1000 ≤ bytes
    · rw [if_pos more, if_pos more]
      refine ih (after.turn ⟨notLast, more⟩) ?_
      show r.unit + 1 + left = Size.lastUnit
      omega
    · rw [if_neg more, if_neg more]
      exact ⟨turns, r, after, fun continues => more continues.2, rfl, rfl⟩

theorem ofBytesInWords_eq (pos : 0 < bytes) : ofBytesInWords bytes = .ok (ofBytes bytes) := by
  obtain ⟨turns, r, after, -, climbed, inWords⟩ := climb_stops bound pos .start (Nat.zero_add _)
  change climb bytes Size.lastUnit 0 1 = _ at climbed
  have sound := after.sound pos
  have notAbove := sound.notAbove
  have first := roundInWords_eq bound sound.divisor_ne_zero (by omega)
  have divisor : word (r.divisor * 1000) = .ok (r.divisor * 1000) :=
    word_eq_ok (sound.small bound).1
  have second : roundInWords bytes (r.divisor * 1000) = .ok (round bytes (r.divisor * 1000)) :=
    roundInWords_eq bound (Nat.mul_ne_zero sound.divisor_ne_zero (by decide)) (by omega)
  rw [ofBytesInWords, ofBytes, inWords, climbed]
  dsimp only [bind, Except.bind]
  rw [first]
  dsimp only
  split
  · rw [divisor]
    dsimp only
    rw [second]
    rfl
  · rfl

theorem textInWords_eq (pos : 0 < bytes) : textInWords bytes = .ok (ofBytes bytes).text := by
  have named : (ofBytes bytes).unit < Size.units.length :=
    Nat.lt_succ_of_le ((ofBytes_shows pos bound).unit_le bound)
  rw [textInWords, ofBytesInWords_eq bound pos]
  dsimp only [bind, Except.bind]
  rw [entry_eq_ok named]
  rfl

end Amount

namespace Size

open Amount (Rung)

/-- The climb takes six turns at most and stops at the largest unit. A thousand of it is rounded to only
below the last unit, and in the next unit it is no longer a thousand. No word overflows on the way. -/
theorem format_safe (n : UInt64) (known : n ≠ unknown) :
    (∀ turns r, Rung.After n.toNat turns r →
      turns ≤ 6 ∧ r.divisor ≠ 0 ∧ r.divisor * 1000 < 2 ^ 128 ∧
      n.toNat * 100 + r.divisor / 2 < 2 ^ 128) ∧
    (∃ turns r, Rung.After n.toNat turns r ∧ ¬ r.Continues n.toNat ∧
      Amount.climb n.toNat lastUnit 0 1 = (r.unit, r.divisor) ∧
      r.divisor = 1000 ^ r.unit ∧ r.unit ≤ 6 ∧ r.divisor ≤ n.toNat ∧
      (r.unit = 6 ∨ n.toNat < 1000 * r.divisor) ∧
      (100000 ≤ Amount.round n.toNat r.divisor →
        r.unit < 6 ∧ Amount.round n.toNat r.up.divisor < 100000 ∧ r.up.divisor ≠ 0 ∧
        n.toNat * 100 + r.up.divisor / 2 < 2 ^ 128)) ∧
    (Amount.ofBytes n.toNat).unit < units.length ∧
    Amount.textInWords n.toNat = .ok (format (some n)) := by
  have pos : 0 < n.toNat := Nat.pos_of_ne_zero fun zero => known (UInt64.toNat_inj.mp zero)
  have bound := n.toNat_lt
  refine ⟨fun turns r after => ?_, ?_, ?_, ?_⟩
  · have sound := after.sound pos
    obtain ⟨next, sum, -⟩ := sound.small bound
    exact ⟨after.unit_eq ▸ sound.named, sound.divisor_ne_zero, next, sum⟩
  · obtain ⟨turns, r, after, stops, climbed, -⟩ :=
      Amount.climb_stops bound pos .start (Nat.zero_add _)
    have sound := after.sound pos
    refine ⟨turns, r, after, stops, climbed, sound.power, sound.named, sound.notAbove, ?_, ?_⟩
    · obtain less | last := Nat.lt_or_eq_of_le sound.named
      · have below := (sound.largestUnit stops).below less
        rw [Nat.pow_succ, ← sound.power] at below
        exact .inr (by omega)
      · exact .inl last
    · intro thousand
      obtain ⟨less, hundred⟩ := sound.round_up stops bound thousand
      have pos : r.up.divisor ≠ 0 := Nat.mul_ne_zero sound.divisor_ne_zero (by decide)
      exact ⟨less, by omega, pos, (sound.small bound).2.2⟩
  · exact Nat.lt_succ_of_le ((Amount.ofBytes_shows pos bound).unit_le bound)
  · rw [Amount.textInWords_eq bound pos, format_of_ne known]

/-- The greatest size takes all six turns. -/
theorem greatest_format_safe :
    (18446744073709551615 : UInt64) ≠ unknown ∧
      Amount.textInWords 18446744073709551615 = .ok "18.45 EB" ∧
      ∃ r, Rung.After 18446744073709551615 6 r ∧ r = ⟨6, 1000 ^ 6⟩ := by
  have known : (18446744073709551615 : UInt64) ≠ unknown := by decide
  obtain ⟨-, ⟨turns, r, after, -, climbed, -⟩, -, text⟩ := format_safe 18446744073709551615 known
  have shown : format (some 18446744073709551615) = "18.45 EB" := by decide
  have top : Amount.climb 18446744073709551615 lastUnit 0 1 = (6, 1000 ^ 6) := by decide
  obtain ⟨unit, divisor⟩ := r
  obtain ⟨rfl, rfl⟩ := Prod.mk.inj (climbed.symm.trans top)
  obtain rfl : 6 = turns := after.unit_eq
  exact ⟨known, shown ▸ text, _, after, rfl⟩

end Size

end Spindle
