import Spindle.Decimal.Layout
import Spindle.Text.Quoted
import Spindle.Yaml.Document

/-!
# Meaning of scalars

What a scalar stands for: nothing, a truth value, an integer, a double or a text.
-/

namespace Spindle.Yaml

/-- The kind of node that stands where another was due. -/
inductive Found where
  | unit
  | boolean (b : Bool)
  | integer (z : Int)
  /-- An integer that needs up to 128 bits. -/
  | wide (z : Int)
  | float (x : Float)
  | string (s : String)
  | sequence
  | map
  deriving DecidableEq

/-- Doubles are written positionally, and of two equally near decimals the greater is taken. -/
def doubleLayout : Decimal.Layout where
  tie := .up
  positional := none

namespace Found

def text : Found → String
  | unit => "unit value"
  | boolean b => "boolean `" ++ (if b then "true" else "false") ++ "`"
  | integer z => "integer `" ++ toString z ++ "`"
  | wide z => "integer `" ++ toString z ++ "` as " ++ (if z < 0 then "i128" else "u128")
  | float x => "floating point `" ++ doubleLayout.write x ++ "`"
  | string s => "string " ++ Text.quoted s
  | sequence => "sequence"
  | map => "map"

end Found

/-! ## Integers -/

def number? (base : Nat) (digits : List Char) : Option Nat :=
  if digits = [] then none
  else digits.foldlM (fun n c => (hexValue? c).bind fun d =>
    if d < base then some (n * base + d) else none) 0

def afterMark? (mark : Char) (s : List Char) : Option (List Char) :=
  match s with
  | '0' :: c :: rest => if c = mark then some rest else none
  | _ => none

/-- The number that a text writes in base 16, 8 or 2 with its mark, or else in base 10. -/
def marked? (s : List Char) : Option Nat :=
  match afterMark? 'x' s, afterMark? 'o' s, afterMark? 'b' s with
  | some digits, _, _ => number? 16 digits
  | _, some digits, _ => number? 8 digits
  | _, _, some digits => number? 2 digits
  | none, none, none => number? 10 s

/-- Digits that start with a needless zero are a text and not a number. -/
def hasNeedlessZero (s : List Char) : Bool :=
  let digits := match s with
    | '-' :: rest | '+' :: rest => rest
    | _ => s
  1 < digits.length && digits.head? = some '0' && digits.all Char.isDigit

def unsigned? (s : List Char) : Option Nat :=
  if hasNeedlessZero s then none
  else
    match s with
    | '+' :: rest => marked? rest
    | _ => marked? s

def negative? (s : List Char) : Option Nat :=
  if hasNeedlessZero s then none
  else
    match s with
    | '-' :: rest => marked? rest
    | _ => none

def wideSize : Nat := UInt64.size * UInt64.size

def integer? (s : List Char) : Option Found :=
  match unsigned? s, negative? s with
  | some n, _ =>
    if n < UInt64.size then some (.integer n) else if n < wideSize then some (.wide n) else none
  | none, some n =>
    if n ≤ UInt64.size / 2 then some (.integer (-n))
    else if n ≤ wideSize / 2 then some (.wide (-n))
    else none
  | none, none => none

/-! ## Doubles -/

/-- `digits * 10 ^ exponent`, if it is finite. -/
def decimal? (digits : Nat) (exponent : Int) : Option Float :=
  let place := (Decimal.digitCount digits : Int) + exponent
  if digits = 0 ∨ place < -400 then some 0.0
  else if 400 < place then none
  else
    let x := Float.ofScientific digits (exponent < 0) exponent.natAbs
    if x.isInf then none else some x

/-- The exponent of a decimal: nothing, or `e`, a sign and digits. -/
def exponent? (s : List Char) : Option Int :=
  match s with
  | [] => some 0
  | c :: rest =>
    if c = 'e' ∨ c = 'E' then
      match rest with
      | '-' :: digits => (number? 10 digits).map fun n => -(n : Int)
      | '+' :: digits => (number? 10 digits).map fun n => (n : Int)
      | digits => (number? 10 digits).map fun n => (n : Int)
    else none

/-- A decimal without sign: digits with at most one point among or around them, and an exponent. -/
def magnitude? (s : List Char) : Option Float :=
  let whole := s.takeWhile Char.isDigit
  let rest := s.dropWhile Char.isDigit
  let (fraction, rest) := match rest with
    | '.' :: rest => (rest.takeWhile Char.isDigit, rest.dropWhile Char.isDigit)
    | rest => ([], rest)
  match number? 10 (whole ++ fraction), exponent? rest with
  | some n, some e => decimal? n (e - fraction.length)
  | _, _ => none

def float? (s : List Char) : Option Float :=
  let unsigned := match s with
    | '+' :: rest => rest
    | _ => s
  if [".inf", ".Inf", ".INF"].contains (String.ofList unsigned) then some (1.0 / 0.0)
  else if ["-.inf", "-.Inf", "-.INF"].contains (String.ofList s) then some (-1.0 / 0.0)
  else if [".nan", ".NaN", ".NAN"].contains (String.ofList s) then some (0.0 / 0.0)
  else
    match s with
    | '-' :: rest => (magnitude? rest).map (- ·)
    | _ => magnitude? unsigned

/-! ## Scalars -/

def isNull (s : String) : Bool := ["null", "Null", "NULL", "~"].contains s

def boolean? (s : String) : Option Bool :=
  if ["true", "True", "TRUE"].contains s then some true
  else if ["false", "False", "FALSE"].contains s then some false
  else none

def plainMeaning (s : String) : Found :=
  if s = "" ∨ isNull s = true then .unit
  else
    match boolean? s, integer? s.toList with
    | some b, _ => .boolean b
    | none, some f => f
    | none, none =>
      if hasNeedlessZero s.toList then .string s
      else
        match float? s.toList with
        | some x => .float x
        | none => .string s

namespace Scalar

def nullTag : String := "tag:yaml.org,2002:null"
def booleanTag : String := "tag:yaml.org,2002:bool"
def integerTag : String := "tag:yaml.org,2002:int"
def floatTag : String := "tag:yaml.org,2002:float"

/-- What a scalar stands for; or, if its tag wants something else than its text, what the tag
wants. Other tags make a text of it, and local tags change nothing. -/
def meaning (s : Scalar) : Except String Found :=
  match s.tag with
  | none => .ok (if s.style = .plain then plainMeaning s.text else .string s.text)
  | some tag =>
    if tag = booleanTag then
      match boolean? s.text with
      | some b => .ok (.boolean b)
      | none => .error "a boolean"
    else if tag = integerTag then
      match integer? s.text.toList with
      | some f => .ok f
      | none => .error "an integer"
    else if tag = floatTag then
      match float? s.text.toList with
      | some x => .ok (.float x)
      | none => .error "a float"
    else if tag = nullTag then if isNull s.text then .ok .unit else .error "null"
    else if tag.startsWith "!" ∧ s.style = .plain then .ok (plainMeaning s.text)
    else .ok (.string s.text)

/-- The unsigned integer of at most 64 bits that a plain scalar is, or a literal one that is tagged
as an integer. -/
def word? (s : Scalar) : Option UInt64 :=
  if s.style = .plain ∨ (s.style = .literal ∧ s.tag = some integerTag) then
    (unsigned? s.text.toList).bind fun n => if n < UInt64.size then some n.toUInt64 else none
  else none

end Scalar

end Spindle.Yaml
