import Spindle.Yaml.Flow

/-!
# Tags, anchors and directives

The names that stand before a node, and the lines that start with a percent sign.
-/

namespace Spindle.Yaml

/-- A tag as it is written: its handle, which is empty for a verbatim tag, and what follows. A byte
that is escaped is kept as the character of its number. -/
structure TagName where
  handle : List Char
  suffix : List Char
  deriving DecidableEq, Repr

/-- Characters of a tag; only verbatim tags hold a comma or a bracket. -/
def isTagChar (verbatim : Bool) (c : Char) : Bool :=
  isWord c || ";/?:@&=+$.!~*'()".toList.contains c || (verbatim && (c = ',' || c = '[' || c = ']'))

def escapedBytes : Nat → List Char → Option (List UInt8)
  | 0, _ => some []
  | n + 1, '%' :: a :: b :: rest =>
    match hexValue? a, hexValue? b with
    | some a, some b => (escapedBytes n rest).map ((a * 16 + b).toUInt8 :: ·)
    | _, _ => none
  | _, _ => none

/-- How many bytes a sequence has whose first byte is this one. -/
def sequenceLength (first : UInt8) : Option Nat :=
  if first < 0x80 then some 1
  else if 0xC0 ≤ first ∧ first < 0xE0 then some 2
  else if 0xE0 ≤ first ∧ first < 0xF0 then some 3
  else if 0xF0 ≤ first ∧ first < 0xF8 then some 4
  else none

/-- A sequence of escaped bytes: a first byte and as many others as it asks for. What character
they stand for, if any, does not matter. -/
def escapedSequence (s : List Char) : Option (List UInt8) :=
  match escapedBytes 1 s with
  | some [first] =>
    match sequenceLength first with
    | none => none
    | some n =>
      (escapedBytes n s).filter fun bytes => (bytes.drop 1).all fun b => 0x80 ≤ b && b < 0xC0
  | _ => none

/-- A zero byte ends a name. -/
def untilZero (s : List Char) : List Char := s.takeWhile (· ≠ '\x00')

def tagChars (verbatim : Bool) (c : Cursor) : Option (List Char × Cursor) :=
  go c.rest.length [] c
where
  go : Nat → List Char → Cursor → Option (List Char × Cursor)
    | 0, read, c => some (read, c)
    | fuel + 1, read, c =>
      match c.peek? 0 with
      | none => some (read, c)
      | some b =>
        if b = '%' then
          match escapedSequence c.rest with
          | none => none
          | some bytes =>
            go fuel (read ++ bytes.map fun b => Char.ofNat b.toNat) (c.advance (3 * bytes.length))
        else if isTagChar verbatim b then go fuel (read ++ [b]) (c.advance 1)
        else some (read, c)

/-- A handle at its exclamation mark; it ends in another one if it has a name. -/
def readHandle (c : Cursor) : Option (List Char × Cursor) :=
  if c.peek? 0 = some '!' then
    let (name, after) := (c.advance 1).span isWord
    if after.peek? 0 = some '!' then some ('!' :: (name ++ ['!']), after.advance 1)
    else some ('!' :: name, after)
  else none

def readTagName (c : Cursor) : Option (TagName × Cursor) :=
  if c.peek? 1 = some '<' then
    match tagChars true (c.advance 2) with
    | none | some ([], _) => none
    | some (suffix, c) =>
      if c.peek? 0 = some '>' then some (⟨[], untilZero suffix⟩, c.advance 1) else none
  else
    match readHandle c with
    | none => none
    | some (handle, after) =>
      if 2 ≤ handle.length ∧ handle.getLast? = some '!' then
        match tagChars false after with
        | none | some ([], _) => none
        | some (suffix, c) => some (⟨handle, untilZero suffix⟩, c)
      else
        match tagChars false after with
        | none => none
        | some (more, c) =>
          match untilZero (handle.drop 1 ++ more) with
          | [] => some (⟨[], ['!']⟩, c)
          | suffix => some (⟨['!'], suffix⟩, c)

/-- A tag and what may follow it: a blank, a line break, or a comma inside brackets. -/
def readTag (flow : Bool) (c : Cursor) : Option (TagName × Cursor) :=
  match readTagName c with
  | none => none
  | some (tag, c) =>
    if endsWord (c.peek? 0) || (flow && c.peek? 0 = some ',') then some (tag, c) else none

def readAnchor (c : Cursor) : Option (List Char × Cursor) :=
  let (name, after) := c.span isWord
  let ends := endsWord (after.peek? 0) || (after.peek? 0).any "?:,]\x7d%@\x60".toList.contains
  if name ≠ [] ∧ ends = true then some (name, after) else none

/-- A directive: the version of the language, or a handle and what it stands for. -/
inductive Directive where
  | version (major minor : Nat)
  | tag (handle lead : List Char)
  deriving DecidableEq, Repr

namespace Directive

def readNumber (c : Cursor) : Option (Nat × Cursor) :=
  let (digits, after) := c.span Char.isDigit
  if digits = [] ∨ 9 < digits.length then none
  else some (Nat.ofDigitChars 10 digits 0, after)

def readVersion (c : Cursor) : Option (Directive × Cursor) :=
  match readNumber (c.span isBlank).2 with
  | none => none
  | some (major, c) =>
    if c.peek? 0 = some '.' then
      (readNumber (c.advance 1)).map fun (minor, c) => (.version major minor, c)
    else none

def readTagLead (c : Cursor) : Option (Directive × Cursor) :=
  match readHandle (c.span isBlank).2 with
  | none => none
  | some (handle, c) =>
    if handle ≠ ['!'] ∧ (handle.length < 2 ∨ handle.getLast? ≠ some '!') then none
    else if (c.peek? 0).any isBlank then
      match tagChars true (c.span isBlank).2 with
      | none | some ([], _) => none
      | some (lead, c) => if endsWord (c.peek? 0) then some (.tag handle (untilZero lead), c) else none
    else none

/-- A directive at its percent sign, to the end of its line. -/
def read (c : Cursor) : Option (Directive × Cursor) :=
  let (name, after) := (c.advance 1).span isWord
  let value :=
    if name = [] ∨ !endsWord (after.peek? 0) then none
    else if name = "YAML".toList then readVersion after
    else if name = "TAG".toList then readTagLead after
    else none
  match value with
  | none => none
  | some (directive, c) =>
    let c := (c.span isBlank).2
    let c := if c.peek? 0 = some '#' then c.skipLine else c
    if endsLine (c.peek? 0) then some (directive, c.readBreak.2) else none

end Directive

end Spindle.Yaml
