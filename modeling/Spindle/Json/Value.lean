import Spindle.Json.Literal
import Spindle.Json.Quoted

/-!
# JSON values

A value as a tree, and its text: on one line, or one item a line indented by two spaces.
-/

namespace Spindle.Json

inductive Value where
  | null
  | boolean (b : Bool)
  | number (l : Literal)
  | string (s : String)
  | array (items : List Value)
  | object (members : List (String × Value))

/-- The blanks between the tokens of a written value. -/
structure Spacing where
  /-- What stands before an item at a depth, or before a closing bracket. -/
  line : Nat → List Char
  colon : List Char

namespace Spacing

def compact : Spacing where
  line _ := []
  colon := []

def pretty : Spacing where
  line depth := '\n' :: List.replicate (2 * depth) ' '
  colon := [' ']

end Spacing

namespace Value

def ofInt (z : Int) : Value := number (.ofInt z)

def booleanChars (b : Bool) : List Char := if b then ['t', 'r', 'u', 'e'] else ['f', 'a', 'l', 's', 'e']

mutual

def chars (sp : Spacing) (depth : Nat) : Value → List Char
  | null => ['n', 'u', 'l', 'l']
  | boolean b => booleanChars b
  | number l => l.chars
  | string s => Quoted.write s.toList
  | array [] => ['[', ']']
  | array (v :: items) =>
    '[' :: (sp.line (depth + 1) ++ (chars sp (depth + 1) v ++ itemChars sp depth items))
  | object [] => ['\x7b', '\x7d']
  | object ((key, v) :: members) =>
    '\x7b' :: (sp.line (depth + 1) ++ (Quoted.write key.toList ++ ':' :: (sp.colon ++
      (chars sp (depth + 1) v ++ memberChars sp depth members))))

def itemChars (sp : Spacing) (depth : Nat) : List Value → List Char
  | [] => sp.line depth ++ [']']
  | v :: items => ',' :: (sp.line (depth + 1) ++ (chars sp (depth + 1) v ++ itemChars sp depth items))

def memberChars (sp : Spacing) (depth : Nat) : List (String × Value) → List Char
  | [] => sp.line depth ++ ['\x7d']
  | (key, v) :: members =>
    ',' :: (sp.line (depth + 1) ++ (Quoted.write key.toList ++ ':' :: (sp.colon ++
      (chars sp (depth + 1) v ++ memberChars sp depth members))))

end

def compact (v : Value) : String := String.ofList (v.chars .compact 0)

def pretty (v : Value) : String := String.ofList (v.chars .pretty 0)

end Value

end Spindle.Json
