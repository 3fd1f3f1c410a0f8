import Spindle.Decimal.Layout
import Spindle.Text.Quoted

/-!
# Faults of a JSON text

What can be wrong with a text, as causes; `Error.message` has the wording.
-/

namespace Spindle.Json

/-- The kind of value that stands where another was due. -/
inductive Found where
  | null
  | boolean (b : Bool)
  | integer (z : Int)
  | float (x : Float)
  | string (s : String)
  | sequence
  | map
  deriving DecidableEq

inductive Error where
  | endOfValue
  | endOfString
  | endOfList
  | endOfObject
  | expectedValue
  | expectedWord
  | expectedColon
  | expectedListEnd
  | expectedObjectEnd
  | keyNotString
  | trailingComma
  | trailingCharacters
  | invalidNumber
  | numberOutOfRange
  | invalidEscape
  | controlCharacter
  | loneSurrogate
  | unfinishedPair
  | wrongType (found : Found) (expected : String)
  | wrongValue (found : Found) (expected : String)
  | unknownTag (tag : String) (known : List String)
  | missingField (key : String)
  | duplicateField (key : String)
  | wrongLength (length : Nat) (record : String) (size : Nat)
  deriving DecidableEq

/-- Doubles are written positionally from `0.00001` to below `10 ^ 16`. -/
def doubleLayout : Decimal.Layout where
  tie := .even
  positional := some (-5, 15)

namespace Found

def text : Found → String
  | null => "null"
  | boolean b => "boolean `" ++ (if b then "true" else "false") ++ "`"
  | integer z => "integer `" ++ toString z ++ "`"
  | float x => "floating point `" ++ doubleLayout.write x ++ "`"
  | string s => "string " ++ Text.quoted s
  | sequence => "sequence"
  | map => "map"

end Found

namespace Error

def alternatives (known : List String) : String :=
  let ticked := known.map fun tag => "`" ++ tag ++ "`"
  match ticked with
  | [] => "no tag"
  | [a] => a
  | [a, b] => a ++ " or " ++ b
  | _ => "one of " ++ ", ".intercalate ticked

def message : Error → String
  | endOfValue => "EOF while parsing a value"
  | endOfString => "EOF while parsing a string"
  | endOfList => "EOF while parsing a list"
  | endOfObject => "EOF while parsing an object"
  | expectedValue => "expected value"
  | expectedWord => "expected ident"
  | expectedColon => "expected `:`"
  | expectedListEnd => "expected `,` or `]`"
  | expectedObjectEnd => "expected `,` or `\x7d`"
  | keyNotString => "key must be a string"
  | trailingComma => "trailing comma"
  | trailingCharacters => "trailing characters"
  | invalidNumber => "invalid number"
  | numberOutOfRange => "number out of range"
  | invalidEscape => "invalid escape"
  | controlCharacter => "control character (\\u0000-\\u001F) found while parsing a string"
  | loneSurrogate => "lone leading surrogate in hex escape"
  | unfinishedPair => "unexpected end of hex escape"
  | wrongType found expected => "invalid type: " ++ found.text ++ ", expected " ++ expected
  | wrongValue found expected => "invalid value: " ++ found.text ++ ", expected " ++ expected
  | unknownTag tag known => "unknown variant `" ++ tag ++ "`, expected " ++ alternatives known
  | missingField key => "missing field `" ++ key ++ "`"
  | duplicateField key => "duplicate field `" ++ key ++ "`"
  | wrongLength length record size =>
    "invalid length " ++ toString length ++ ", expected struct " ++ record ++ " with " ++
      toString size ++ " elements"

end Error

end Spindle.Json
