/-!
# Sizes

A byte count in the largest decimal unit that keeps it at or above one, rounded half up to
hundredths of that unit.
-/

namespace Spindle

namespace Size

/-- A size of zero says that the size is not known. -/
def unknown : UInt64 := 0

def placeholder : String := "—"

/-- Each unit is a thousand of the one before it. -/
def units : List String := ["B", "KB", "MB", "GB", "TB", "PB", "EB"]

def lastUnit : Nat := units.length - 1

end Size

/-- A number of hundredths of the unit `1000 ^ unit`. -/
structure Amount where
  hundredths : Nat
  unit : Nat
  deriving DecidableEq, Repr

namespace Amount

/-- Climbs to the largest unit that is not above `bytes`, at most `left` units up; gives the unit
and its size. -/
def climb (bytes : Nat) : (left unit divisor : Nat) → Nat × Nat
  | 0, unit, divisor => (unit, divisor)
  | left + 1, unit, divisor =>
    if divisor * 1000 ≤ bytes then climb bytes left (unit + 1) (divisor * 1000)
    else (unit, divisor)

/-- `bytes / divisor` in hundredths, halves rounded up. -/
def round (bytes divisor : Nat) : Nat := (bytes * 100 + divisor / 2) / divisor

/-- What rounds up to a thousand of a unit is one of the next. -/
def ofBytes (bytes : Nat) : Amount :=
  let (unit, divisor) := climb bytes Size.lastUnit 0 1
  if 100000 ≤ round bytes divisor ∧ unit < Size.lastUnit then
    ⟨round bytes (divisor * 1000), unit + 1⟩
  else ⟨round bytes divisor, unit⟩

/-- The amount without trailing zeros, and without a point if it is whole. -/
def numeral (a : Amount) : String :=
  let whole := toString (a.hundredths / 100)
  let rest := a.hundredths % 100
  if rest = 0 then whole
  else if rest % 10 = 0 then whole ++ "." ++ toString (rest / 10)
  else whole ++ "." ++ toString (rest / 10) ++ toString (rest % 10)

def text (a : Amount) : String := a.numeral ++ " " ++ Size.units.getD a.unit ""

end Amount

namespace Size

def format (size : Option UInt64) : String :=
  match size with
  | none => placeholder
  | some bytes => if bytes = unknown then placeholder else (Amount.ofBytes bytes.toNat).text

end Size

end Spindle
