import Spindle.Yaml.Block
import Spindle.Yaml.Tag

/-!
# Tokens

The tokens of a text. What may turn out to be the key of a mapping is only known when a colon
follows, so a token can be used as soon as no such key may stand before it. `Tokens.ofText` gives
the tokens that can be used before the text turns out to be malformed, if it does.
-/

namespace Spindle.Yaml

inductive Style where
  | plain
  | singleQuoted
  | doubleQuoted
  | literal
  | folded
  deriving DecidableEq, Repr

inductive Token where
  | directive (d : Directive)
  | documentStart
  | documentEnd
  | blockSequence
  | blockMapping
  | blockEnd
  | flowSequence
  | flowSequenceEnd
  | flowMapping
  | flowMappingEnd
  | blockEntry
  | flowEntry
  | key
  | value
  | alias (name : List Char)
  | anchor (name : List Char)
  | tag (name : TagName)
  | scalar (text : List Char) (style : Style)
  | textEnd
  deriving DecidableEq, Repr

structure KeyStart where
  number : Nat
  /-- Nothing but a key can stand here. -/
  required : Bool
  index : Nat
  line : Nat
  column : Nat
  deriving DecidableEq, Repr

structure Scan where
  place : Cursor
  /-- Whether the text is known to its end; what comes after a part of it cannot be told. -/
  whole : Bool
  tokens : List Token
  /-- The column of the innermost block; `-1` outside of all blocks. -/
  indent : Int
  outerIndents : List Int
  keyAllowed : Bool
  keyStart : Option KeyStart
  /-- The places where a key may have started outside of the innermost brackets, and so on. -/
  outerStarts : List (Option KeyStart)
  deriving DecidableEq, Repr

namespace Scan

def start (text : List Char) (whole : Bool) : Scan where
  place := .start text
  whole
  tokens := []
  indent := -1
  outerIndents := []
  keyAllowed := true
  keyStart := none
  outerStarts := []

def inFlow (s : Scan) : Bool := !s.outerStarts.isEmpty

def push (s : Scan) (t : Token) : Scan := { s with tokens := s.tokens ++ [t] }

def take (s : Scan) (n : Nat) (t : Token) : Scan :=
  { s with place := s.place.advance n, tokens := s.tokens ++ [t] }

def ready (s : Scan) : List Token :=
  s.tokens.take ((s.keyStart :: s.outerStarts).foldl
    (fun n k => match k with | none => n | some k => min n k.number) s.tokens.length)

/-! ## Keys -/

/-- A key lies on one line and has at most 1024 bytes. -/
def isStale (place : Cursor) (k : KeyStart) : Bool :=
  k.line < place.line || k.index + 1024 < place.index

/-- Forgets the starts of keys that are too far back; none of them may be required. -/
def dropStale (s : Scan) : Option Scan :=
  let fresh (k : Option KeyStart) : Option KeyStart := k.filter (!isStale s.place ·)
  if (s.keyStart :: s.outerStarts).any (·.any fun k => isStale s.place k && k.required) then none
  else some { s with keyStart := fresh s.keyStart, outerStarts := s.outerStarts.map fresh }

/-- No key started here after all. -/
def dropKey (s : Scan) : Option Scan :=
  if s.keyStart.any (·.required) then none else some { s with keyStart := none }

/-- A key may start here. -/
def markKey (s : Scan) : Option Scan :=
  if s.keyAllowed then
    s.dropKey.map fun s =>
      { s with keyStart := some {
        number := s.tokens.length
        required := !s.inFlow && s.indent = s.place.column
        index := s.place.index
        line := s.place.line
        column := s.place.column } }
  else some s

/-! ## Blocks -/

/-- Opens a block at a column if it is further in than the innermost one; its token comes after
`number` others. -/
def openBlock (s : Scan) (column number : Nat) (t : Token) : Scan :=
  if !s.inFlow && s.indent < column then
    { s with
      indent := column
      outerIndents := s.indent :: s.outerIndents
      tokens := s.tokens.insertIdx number t }
  else s

def closeBlocks (s : Scan) (column : Int) : Scan :=
  if s.inFlow then s else go s.indent s.outerIndents s.tokens
where
  go (indent : Int) : List Int → List Token → Scan
    | [], tokens => { s with indent, outerIndents := [], tokens }
    | outer :: outers, tokens =>
      if column < indent then go outer outers (tokens ++ [.blockEnd])
      else { s with indent, outerIndents := outer :: outers, tokens }

/-! ## One token -/

/-- Passes over blanks, comments and line breaks, and over a byte order mark at the start of a line.
Tabs are passed over only where they cannot be indentation. -/
def skipToToken (s : Scan) : Scan :=
  let place :=
    if s.place.column = 0 ∧ s.place.peek? 0 = some '\ufeff' then s.place.advance 1 else s.place
  let tabs := s.inFlow || !s.keyAllowed
  let place := (place.span fun b => b = ' ' || (tabs && b = '\t')).2
  let place := if place.peek? 0 = some '#' then place.skipLine else place
  if (place.peek? 0).any isBreak then
    let next := { s with place := place.readBreak.2, keyAllowed := !s.inFlow || s.keyAllowed }
    if next.place.rest.length < s.place.rest.length then skipToToken next else next
  else { s with place }
termination_by s.place.rest.length

/-- The end of the text, which also ends its last line. -/
def endText (s : Scan) : Option Scan :=
  let place := s.place
  let place := if place.column = 0 then place else { place with line := place.line + 1, column := 0 }
  let s := { s with place }
  (s.closeBlocks (-1)).dropKey.map fun s => { s.push .textEnd with keyAllowed := false }

def readDirective (s : Scan) : Option Scan :=
  match (s.closeBlocks (-1)).dropKey, Directive.read s.place with
  | some s, some (d, place) => some { s.push (.directive d) with place, keyAllowed := false }
  | _, _ => none

def readMarker (s : Scan) (t : Token) : Option Scan :=
  (s.closeBlocks (-1)).dropKey.map fun s => { s.take 3 t with keyAllowed := false }

def openFlow (s : Scan) (t : Token) : Option Scan :=
  s.markKey.map fun s =>
    { s.take 1 t with
      keyStart := none, outerStarts := s.keyStart :: s.outerStarts, keyAllowed := true }

def closeFlow (s : Scan) (t : Token) : Option Scan :=
  s.dropKey.map fun s =>
    match s.outerStarts with
    | [] => { s.take 1 t with keyAllowed := false }
    | k :: outer => { s.take 1 t with keyStart := k, outerStarts := outer, keyAllowed := false }

def readFlowEntry (s : Scan) : Option Scan :=
  s.dropKey.map fun s => { s.take 1 .flowEntry with keyAllowed := true }

def readBlockEntry (s : Scan) : Option Scan :=
  if s.inFlow || s.keyAllowed then
    (s.openBlock s.place.column s.tokens.length .blockSequence).dropKey.map fun s =>
      { s.take 1 .blockEntry with keyAllowed := true }
  else none

def readKey (s : Scan) : Option Scan :=
  if s.inFlow || s.keyAllowed then
    (s.openBlock s.place.column s.tokens.length .blockMapping).dropKey.map fun s =>
      { s.take 1 .key with keyAllowed := !s.inFlow }
  else none

/-- A colon makes what may have been a key one. -/
def readValue (s : Scan) : Option Scan :=
  match s.keyStart with
  | some k =>
    let s := { s with tokens := s.tokens.insertIdx k.number .key }
    let s := s.openBlock k.column k.number .blockMapping
    some { s.take 1 .value with keyStart := none, keyAllowed := false }
  | none =>
    if s.inFlow || s.keyAllowed then
      let s := s.openBlock s.place.column s.tokens.length .blockMapping
      some { s.take 1 .value with keyAllowed := !s.inFlow }
    else none

/-- A token that may be or start a key; no other key starts right after it. -/
def readNode (s : Scan) (read : Cursor → Option (Token × Cursor)) : Option Scan :=
  match s.markKey, read s.place with
  | some s, some (t, place) => some { s.push t with place, keyAllowed := false }
  | _, _ => none

def readAnchored (s : Scan) (t : List Char → Token) : Option Scan :=
  s.readNode fun c => (readAnchor (c.advance 1)).map fun (name, c) => (t name, c)

def readTagged (s : Scan) : Option Scan :=
  s.readNode fun c => (readTag s.inFlow c).map fun (name, c) => (.tag name, c)

def readQuotedScalar (s : Scan) (single : Bool) : Option Scan :=
  s.readNode fun c => (readQuoted single [] (c.advance 1)).map fun (text, c) =>
    (.scalar text (if single then .singleQuoted else .doubleQuoted), c)

def readBlockScalar (s : Scan) (fold : Bool) : Option Scan :=
  match s.dropKey, readBlock fold s.indent (s.place.advance 1) with
  | some s, some (text, place) =>
    some { s.push (.scalar text (if fold then .folded else .literal)) with
      place, keyAllowed := true }
  | _, _ => none

def readPlainScalar (s : Scan) : Option Scan :=
  match s.markKey, readPlain s.inFlow (s.indent + 1) [] .empty s.place with
  | some s, some p =>
    some { s.push (.scalar p.text .plain) with place := p.place, keyAllowed := p.broken }
  | _, _ => none

def startsPlain (s : Scan) (c : Char) (next : Option Char) : Bool :=
  !(isBlank c || isBreak c || isIndicator c) ||
    (c = '-' && !next.any isBlank) ||
    (!s.inFlow && (c = '?' || c = ':') && !endsWord next)

def readToken (s : Scan) : Option Scan :=
  match s.place.peek? 0 with
  | none => s.endText
  | some c =>
    let next := s.place.peek? 1
    if s.place.column = 0 ∧ c = '%' then s.readDirective
    else if s.place.atMarker '-' then s.readMarker .documentStart
    else if s.place.atMarker '.' then s.readMarker .documentEnd
    else if c = '[' then s.openFlow .flowSequence
    else if c = '\x7b' then s.openFlow .flowMapping
    else if c = ']' then s.closeFlow .flowSequenceEnd
    else if c = '\x7d' then s.closeFlow .flowMappingEnd
    else if c = ',' then s.readFlowEntry
    else if c = '-' ∧ endsWord next = true then s.readBlockEntry
    else if c = '?' ∧ (s.inFlow || endsWord next) = true then s.readKey
    else if c = ':' ∧ (s.inFlow || endsWord next) = true then s.readValue
    else if c = '*' then s.readAnchored .alias
    else if c = '&' then s.readAnchored .anchor
    else if c = '!' then s.readTagged
    else if c = '|' ∧ s.inFlow = false then s.readBlockScalar false
    else if c = '>' ∧ s.inFlow = false then s.readBlockScalar true
    else if c = '\'' then s.readQuotedScalar true
    else if c = '"' then s.readQuotedScalar false
    else if s.startsPlain c next then s.readPlainScalar
    else none

/-- Whether the next `n` characters reach beyond the known part of the text. -/
def isCut (s : Scan) (n : Nat) : Bool := !s.whole && (s.place.rest.take n).length < n

/-- Goes on to the next token and over it. What a token is depends on up to four characters. -/
def step (s : Scan) : Option Scan :=
  match s.skipToToken.dropStale with
  | none => none
  | some s =>
    if s.isCut 4 then none
    else
      match (s.closeBlocks s.place.column).readToken with
      | none => none
      | some s => if s.isCut 1 then none else s.dropStale

end Scan

/-- The usable tokens of a text. They end with `Token.textEnd` unless the text is malformed. -/
structure Tokens where
  tokens : List Token
  deriving DecidableEq, Repr

namespace Tokens

def ofScan (s : Scan) : Tokens :=
  match s.step with
  | none => ⟨s.ready⟩
  | some next =>
    if next.tokens.getLast? = some .textEnd then ⟨next.tokens⟩
    else if next.place.rest.length < s.place.rest.length then ofScan next
    else ⟨next.ready⟩
termination_by s.place.rest.length

/-- How many bytes of a text are looked at together. -/
def portion : Nat := 16384

/-- The portions of a text before the first one that has a character which is not allowed, and
whether that is all of it. A portion has as many whole characters as fit; `done` and `current`,
of `bytes` bytes, are those before this place in reverse. -/
def allowedPart (done current : List Char) (bytes : Nat) : List Char → List Char × Bool
  | [] => ((current ++ done).reverse, true)
  | c :: rest =>
    if bytes + c.utf8Size ≤ portion then
      if isAllowed c then allowedPart done (c :: current) (bytes + c.utf8Size) rest
      else (done.reverse, false)
    else if isAllowed c then allowedPart (current ++ done) [c] c.utf8Size rest
    else ((current ++ done).reverse, false)

def ofText (text : List Char) : Tokens :=
  let (text, whole) := allowedPart [] [] 0 text
  ofScan (.start text whole)

end Tokens

end Spindle.Yaml
