/-!
# Shortest decimals

The decimal with the fewest digits that reads back as a given binary fraction, chosen by exact
integer arithmetic. `Dyadic.readsBack` is the test, `Dyadic.shortest` the search.
-/

namespace Spindle.Decimal

/-- A positive binary fraction `mantissa * 2 ^ exponent` with its rounding interval. -/
structure Dyadic where
  mantissa : Nat
  exponent : Int
  /-- The neighbour below is half as far away as the neighbour above. -/
  narrowBelow : Bool
  deriving DecidableEq, Repr

/-- The magnitude of a finite double. -/
def Dyadic.ofFloat (x : Float) : Dyadic :=
  let exponent := (x.toBits >>> 52 &&& 0x7FF).toNat
  let fraction := (x.toBits &&& 0xFFFFFFFFFFFFF).toNat
  if exponent = 0 then ⟨fraction, -1074, false⟩
  else ⟨0x10000000000000 + fraction, (exponent : Int) - 1075, fraction = 0 && 1 < exponent⟩

/-- `digits * 10 ^ exponent`. -/
structure Figure where
  digits : Nat
  exponent : Int
  deriving DecidableEq, Repr

/-- Which of two equally near decimals is taken. -/
inductive Tie where
  | even
  | up
  deriving DecidableEq, Repr

/-- How many decimal digits a number has; none for zero. -/
def digitCount (n : Nat) : Nat :=
  if n = 0 then 0 else (Nat.toDigits 10 n).length

/-- `x / 10 ^ e` as a quotient of naturals. -/
def Dyadic.over (x : Dyadic) (e : Int) : Nat × Nat :=
  ((x.mantissa <<< x.exponent.toNat) * Nat.pow 10 (-e).toNat,
    Nat.pow 10 e.toNat <<< (-x.exponent).toNat)

/-- The place of the leading digit: `10 ^ x.place ≤ x < 10 ^ (x.place + 1)`. -/
def Dyadic.place (x : Dyadic) : Int :=
  let (num, den) := x.over 0
  if den ≤ num then digitCount (num / den) - 1
  else -(digitCount ((den - 1) / num))

/-- The decimal lies among the reals that round to `x`; the ends count when the mantissa is
even. -/
def Dyadic.readsBack (x : Dyadic) (d : Figure) : Bool :=
  let (num, den) := x.over d.exponent
  let gap := num / x.mantissa
  let low := 4 * num - if x.narrowBelow then gap else 2 * gap
  let high := 4 * num + 2 * gap
  let scaled := 4 * d.digits * den
  if x.mantissa % 2 = 0 then low ≤ scaled && scaled ≤ high else low < scaled && scaled < high

/-- The better of the two neighbours of `x` among the multiples of `10 ^ e`, if one reads back. -/
def Dyadic.onGrid (x : Dyadic) (tie : Tie) (e : Int) : Option Figure :=
  let (num, den) := x.over e
  let below := num / den
  let lower : Figure := ⟨below, e⟩
  let upper : Figure := ⟨below + 1, e⟩
  match 0 < below && x.readsBack lower, x.readsBack upper with
  | false, false => none
  | true, false => some lower
  | false, true => some upper
  | true, true =>
    match compare (2 * (num % den)) den with
    | .lt => some lower
    | .gt => some upper
    | .eq =>
      match tie with
      | .even => some (if below % 2 = 0 then lower else upper)
      | .up => some upper

/-- Moves trailing zeros of the digits into the exponent. -/
def Figure.normal (d : Figure) : Figure :=
  go d.digits d
where
  go : Nat → Figure → Figure
    | 0, d => d
    | fuel + 1, d =>
      if d.digits ≠ 0 ∧ d.digits % 10 = 0 then go fuel ⟨d.digits / 10, d.exponent + 1⟩ else d

/-- Seventeen digits tell any two doubles apart, so the search ends with a hit. -/
def Dyadic.shortest (x : Dyadic) (tie : Tie) : Figure :=
  let place := x.place
  match (List.range 17).findSome? fun n : Nat => x.onGrid tie (place - n) with
  | some d => d.normal
  | none => ⟨x.mantissa <<< x.exponent.toNat, 0⟩

end Spindle.Decimal
