import Spindle.Proofs.Json.Whole

/-!
# The grammar of JSON

Which texts are JSON values, without reference to a reader: white space, numbers, strings, lists
and objects of any depth. An escape of a string may name half of a surrogate pair.
-/

namespace Spindle.Json

/-- Texts, each of them after a comma. -/
def following (ts : List (List Char)) : List Char := ts.flatMap fun t => ',' :: t

theorem following_cons (t : List Char) (ts : List (List Char)) :
    following (t :: ts) = ',' :: (t ++ following ts) := rfl

theorem Delimits.following (ts : List (List Char)) {s : List Char} (delimits : Delimits s) :
    Delimits (following ts ++ s) := by
  cases ts with
  | nil => exact delimits
  | cons t ts => exact .cons rfl _

def separated : List (List Char) → List Char
  | [] => []
  | t :: ts => t ++ following ts

namespace Literal

def IsDigits (s : List Char) : Prop := s ≠ [] ∧ ∀ c ∈ s, c.isDigit = true

structure IsExponent (e : Exponent) : Prop where
  mark : e.mark = 'e' ∨ e.mark = 'E'
  sign : ∀ c ∈ e.sign, c = '+' ∨ c = '-'
  digits : IsDigits e.digits

/-- A literal whose text is a number. -/
structure WellFormed (l : Literal) : Prop where
  whole : IsDigits l.whole
  /-- Only zero starts with one. -/
  lead : l.whole.head? = some '0' → l.whole = ['0']
  fraction : ∀ digits ∈ l.fraction, IsDigits digits
  exponent : ∀ e ∈ l.exponent, IsExponent e

end Literal

namespace Quoted

/-- The characters that may follow a backslash on their own. -/
def shortEscapes : List Char := ['"', '\\', '/', 'b', 'f', 'n', 'r', 't']

def IsHexDigit (c : Char) : Prop := c ∈ "0123456789abcdefABCDEF".toList

/-- What may stand between two quotes. -/
inductive IsBody : List Char → Prop where
  | nil : IsBody []
  | plain {c : Char} {s : List Char} (printable : 0x20 ≤ c.toNat) (notQuote : c ≠ '"')
      (notBackslash : c ≠ '\\') (others : IsBody s) : IsBody (c :: s)
  | short {c : Char} {s : List Char} (listed : c ∈ shortEscapes) (others : IsBody s) :
      IsBody ('\\' :: c :: s)
  | unit {h s : List Char} (four : h.length = 4) (hex : ∀ c ∈ h, IsHexDigit c)
      (others : IsBody s) : IsBody ('\\' :: 'u' :: (h ++ s))

end Quoted

/-- A member of an object as it is written: blanks, what stands between the quotes of its key,
blanks, and its value with the blanks around it. -/
structure MemberText where
  before : List Char
  body : List Char
  after : List Char
  value : List Char

namespace MemberText

def chars (m : MemberText) : List Char :=
  m.before ++ '"' :: (m.body ++ '"' :: (m.after ++ ':' :: m.value))

structure WellFormed (m : MemberText) : Prop where
  before : Blank m.before
  body : Quoted.IsBody m.body
  after : Blank m.after

end MemberText

/-- A JSON value, with blanks around it. -/
inductive IsJson : List Char → Prop where
  | padded {b s e : List Char} (before : Blank b) (value : IsJson s) (after : Blank e) :
      IsJson (b ++ (s ++ e))
  | null : IsJson ['n', 'u', 'l', 'l']
  | boolean (b : Bool) : IsJson (Value.booleanChars b)
  | number {l : Literal} (wellFormed : l.WellFormed) : IsJson l.chars
  | string {s : List Char} (body : Quoted.IsBody s) : IsJson ('"' :: (s ++ ['"']))
  | emptyList {b : List Char} (blank : Blank b) : IsJson ('[' :: (b ++ [']']))
  | list {items : List (List Char)} (some : items ≠ []) (values : ∀ s ∈ items, IsJson s) :
      IsJson ('[' :: (separated items ++ [']']))
  | emptyObject {b : List Char} (blank : Blank b) : IsJson ('\x7b' :: (b ++ ['\x7d']))
  | object {members : List MemberText} (some : members ≠ [])
      (wellFormed : ∀ m ∈ members, m.WellFormed) (values : ∀ m ∈ members, IsJson m.value) :
      IsJson ('\x7b' :: (separated (members.map MemberText.chars) ++ ['\x7d']))

end Spindle.Json
