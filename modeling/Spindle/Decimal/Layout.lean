import Spindle.Decimal.Shortest

/-!
# Layout of doubles

How a double is written once its digits are chosen: where positional notation ends, and what an
exponent looks like.
-/

namespace Spindle.Decimal

structure Layout where
  tie : Tie
  /-- The leading places that are written positionally; all of them when absent. -/
  positional : Option (Int × Int)
  deriving DecidableEq, Repr

/-- Positional digits; a whole number ends in `.0`. -/
def Figure.positional (d : Figure) : String :=
  let digits := Nat.toDigits 10 d.digits
  let chars :=
    if 0 ≤ d.exponent then digits ++ List.replicate d.exponent.toNat '0' ++ ['.', '0']
    else
      let decimals := (-d.exponent).toNat
      let padded := List.replicate (decimals + 1 - digits.length) '0' ++ digits
      padded.take (padded.length - decimals) ++ '.' :: padded.drop (padded.length - decimals)
  String.ofList chars

/-- One leading digit, the other digits after the point, and a signed exponent. -/
def Figure.scientific (d : Figure) : String :=
  let digits := Nat.toDigits 10 d.digits
  let place := d.exponent + digits.length - 1
  let mantissa := match digits with
    | [c] => [c]
    | c :: rest => c :: '.' :: rest
    | [] => []
  String.ofList <| mantissa ++ 'e' :: (if place < 0 then '-' else '+') ::
    Nat.toDigits 10 place.natAbs

/-- Places below the first bound or above the second are written with an exponent. -/
def Layout.magnitude (f : Layout) (x : Float) : String :=
  if x == 0.0 then "0.0"
  else
    let dyadic := Dyadic.ofFloat x
    let d := dyadic.shortest f.tie
    match f.positional with
    | none => d.positional
    | some (least, most) =>
      if least ≤ dyadic.place && dyadic.place ≤ most then d.positional
      else d.scientific

def Layout.write (f : Layout) (x : Float) : String :=
  let sign := if x.toBits < 0x8000000000000000 then "" else "-"
  if x.isNaN then "NaN"
  else if x.isInf then sign ++ "inf"
  else sign ++ f.magnitude x

end Spindle.Decimal
