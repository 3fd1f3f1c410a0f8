import Spindle.Yaml.Cursor

/-!
# Block scalars

Scalars that follow `|` or `>` on lines of their own, told by their indentation.
-/

namespace Spindle.Yaml

inductive Chomp where
  | strip
  | clip
  | keep
  deriving DecidableEq, Repr

structure Header where
  chomp : Chomp
  /-- The indentation relative to what encloses the scalar, if it is given. -/
  indent : Option Nat
  deriving DecidableEq, Repr

namespace Header

def readChomp (c : Cursor) : Option Chomp × Cursor :=
  match c.peek? 0 with
  | some '+' => (some .keep, c.advance 1)
  | some '-' => (some .strip, c.advance 1)
  | _ => (none, c)

def readIndent (c : Cursor) : Option (Option Nat × Cursor) :=
  match c.peek? 0 with
  | some d =>
    if d = '0' then none
    else if d.isDigit then some (some (d.toNat - '0'.toNat), c.advance 1)
    else some (none, c)
  | none => some (none, c)

def read (c : Cursor) : Option (Header × Cursor) :=
  match readChomp c with
  | (some chomp, c) => (readIndent c).map fun (indent, c) => (⟨chomp, indent⟩, c)
  | (none, c) =>
    match readIndent c with
    | none => none
    | some (none, c) => some (⟨.clip, none⟩, c)
    | some (indent, c) => some (⟨(readChomp c).1.getD .clip, indent⟩, (readChomp c).2)

end Header

/-- Passes over blanks and a comment to the end of the line and over its break. -/
def endLine (c : Cursor) : Option Cursor :=
  let c := (c.span isBlank).2
  let c := if c.peek? 0 = some '#' then c.skipLine else c
  if endsLine (c.peek? 0) then some c.readBreak.2 else none

/-- The empty lines from here on: their breaks, the widest indentation among them and the place
where the next line has its first character. Indentation is passed over up to `indent`, or all of
it where that is not yet known; there a tab is an error. -/
def readBreaks (indent : Option Nat) (widest : Nat) (breaks : List Char) (c : Cursor) :
    Option (Nat × List Char × Cursor) :=
  let spaces := (c.rest.takeWhile (· = ' ')).length
  let here := c.advance (match indent with
    | none => spaces
    | some n => min spaces (n - c.column))
  let widest := max widest here.column
  if here.peek? 0 = some '\t' ∧ indent.all (here.column < ·) then none
  else if (here.peek? 0).any isBreak then
    if here.readBreak.2.rest.length < c.rest.length then
      readBreaks indent widest (breaks ++ here.readBreak.1) here.readBreak.2
    else none
  else some (widest, breaks, here)
termination_by c.rest.length

structure BlockText where
  text : List Char
  /-- The break after the last line. -/
  first : List Char
  /-- The breaks of the empty lines after it. -/
  more : List Char
  /-- Whether the last line starts with a blank. -/
  blank : Bool
  deriving DecidableEq, Repr

namespace BlockText

/-- The text up to the next line. Folding joins two lines that both start with other characters
than blanks. -/
def upTo (t : BlockText) (fold blank : Bool) : List Char :=
  if fold && t.first = ['\n'] && !t.blank && !blank then
    t.text ++ (if t.more = [] then [' '] else []) ++ t.more
  else t.text ++ t.first ++ t.more

/-- The whole text, without the line breaks at its end that chomping removes. -/
def chomped (t : BlockText) : Chomp → List Char
  | .strip => t.text
  | .clip => t.text ++ t.first
  | .keep => t.text ++ t.first ++ t.more

end BlockText

def readLines (fold : Bool) (indent : Nat) (t : BlockText) (c : Cursor) :
    Option (BlockText × Cursor) :=
  if c.column = indent ∧ c.rest ≠ [] then
    let blank := (c.peek? 0).any isBlank
    let (line, after) := c.span fun b => !isBreak b
    let (first, after) := after.readBreak
    match readBreaks (some indent) 0 [] after with
    | none => none
    | some (_, more, next) =>
      if next.rest.length < c.rest.length then
        readLines fold indent ⟨t.upTo fold blank ++ line, first, more, blank⟩ next
      else none
  else some (t, c)
termination_by c.rest.length

/-- A block scalar after its `|` or `>`, inside a block indented by `outer`, or by `-1` outside of
all blocks. -/
def readBlock (fold : Bool) (outer : Int) (c : Cursor) : Option (List Char × Cursor) :=
  match Header.read c with
  | none => none
  | some (header, c) =>
    match endLine c with
    | none => none
    | some c =>
      let given := header.indent.map fun n => n + outer.toNat
      match readBreaks given 0 [] c with
      | none => none
      | some (widest, breaks, c) =>
        let indent := given.getD (max widest (max (outer + 1).toNat 1))
        match readLines fold indent ⟨[], [], breaks, false⟩ c with
        | none => none
        | some (t, c) => some (t.chomped header.chomp, c)

end Spindle.Yaml
