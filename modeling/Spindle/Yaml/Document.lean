import Spindle.Yaml.Token

/-!
# Documents

The nodes of a text in the order in which they are written. What stands before the place where a
text is malformed can still be read.
-/

namespace Spindle.Yaml

structure Scalar where
  text : String
  style : Style
  tag : Option String
  deriving DecidableEq, Repr

/-- A scalar, a reference to an earlier node, or the start or end of a collection. -/
inductive Event where
  | scalar (s : Scalar)
  | alias (target : Nat)
  | sequenceStart
  | sequenceEnd
  | mappingStart
  | mappingEnd
  deriving DecidableEq, Repr

structure Document where
  events : List Event
  /-- Where the node that an alias refers to starts; the first entry for a target counts. -/
  targets : List (Nat × Nat)
  /-- Whether the text ends where the document does. -/
  sound : Bool
  deriving DecidableEq, Repr

inductive Due where
  | node (block indentless : Bool)
  | blockEntry
  | indentlessEntry
  | blockKey
  | blockValue
  | flowItem (first : Bool)
  | pairKey
  | pairValue
  | pairEnd
  | flowKey (first : Bool)
  | flowValue
  | flowNoValue
  deriving DecidableEq, Repr

structure Draft where
  handles : List (List Char × List Char)
  anchors : List (List Char × Nat)
  targets : List (Nat × Nat)
  /-- The events in reverse. -/
  events : List Event
  deriving DecidableEq, Repr

namespace Draft

def add (d : Draft) (e : Event) : Draft := { d with events := e :: d.events }

def emptyScalar (tag : Option String) : Event := .scalar ⟨"", .plain, tag⟩

def addEmpty (d : Draft) : Draft := d.add (emptyScalar none)

/-- An anchor at the next event. Its target has the number of names known before it. -/
def mark (d : Draft) (anchor : Option (List Char)) : Draft :=
  match anchor with
  | none => d
  | some name =>
    { d with
      anchors := (name, d.anchors.length) :: d.anchors.filter (·.1 ≠ name)
      targets := (d.anchors.length, d.events.length) :: d.targets }

def fullTag (d : Draft) (t : TagName) : Option String :=
  if t.handle = [] then some (String.ofList t.suffix)
  else (d.handles.lookup t.handle).map fun lead => String.ofList (lead ++ t.suffix)

end Draft

/-- What may stand before a node, in either order. -/
structure Properties where
  anchor : Option (List Char)
  tag : Option TagName

namespace Properties

def read : List Token → Properties × List Token
  | .anchor name :: .tag tag :: ts => (⟨some name, some tag⟩, ts)
  | .tag tag :: .anchor name :: ts => (⟨some name, some tag⟩, ts)
  | .anchor name :: ts => (⟨some name, none⟩, ts)
  | .tag tag :: ts => (⟨none, some tag⟩, ts)
  | ts => (⟨none, none⟩, ts)

end Properties

namespace Due

/-- What has been read after a step, what is due then, and the tokens left. -/
abbrev Step : Type := Option (Draft × List Due × List Token)

def readBody (block indentless : Bool) (d : Draft) (anchor : Option (List Char))
    (tag : Option String) (ts : List Token) : Step :=
  let marked := d.mark anchor
  let empty : Step :=
    if anchor.isSome || tag.isSome then some (marked.add (Draft.emptyScalar tag), [], ts) else none
  match ts with
  | [] => none
  | .blockEntry :: _ =>
    if indentless then some (marked.add .sequenceStart, [.indentlessEntry], ts) else empty
  | .scalar text style :: ts =>
    let tag := if tag = some "!" then none else tag
    some (marked.add (.scalar ⟨String.ofList text, style, tag⟩), [], ts)
  | .flowSequence :: ts => some (marked.add .sequenceStart, [.flowItem true], ts)
  | .flowMapping :: ts => some (marked.add .mappingStart, [.flowKey true], ts)
  | .blockSequence :: ts =>
    if block then some (marked.add .sequenceStart, [.blockEntry], ts) else empty
  | .blockMapping :: ts =>
    if block then some (marked.add .mappingStart, [.blockKey], ts) else empty
  | _ => empty

def readNode (block indentless : Bool) (d : Draft) (ts : List Token) : Step :=
  match ts with
  | .alias name :: ts => (d.anchors.lookup name).map fun target => (d.add (.alias target), [], ts)
  | ts =>
    let (properties, ts) := Properties.read ts
    match properties.tag with
    | none => readBody block indentless d properties.anchor none ts
    | some tag =>
      match d.fullTag tag with
      | none => none
      | some tag => readBody block indentless d properties.anchor (some tag) ts

/-- A node that is left out if one of `ends` stands in its place; then `next` is due. -/
def optionalNode (block indentless : Bool) (ends : List Token) (next : Due) (d : Draft)
    (ts : List Token) : Step :=
  match ts with
  | [] => none
  | t :: _ =>
    if ends.contains t then some (d.addEmpty, [next], ts)
    else some (d, [.node block indentless, next], ts)

/-- The end of a collection inside brackets, or its next item by `item`; items are separated by
commas. -/
def nextInFlow (first : Bool) (closing : Token) (ending : Event)
    (item : Draft → Token → List Token → Step) (d : Draft) (ts : List Token) : Step :=
  match ts with
  | [] => none
  | t :: rest =>
    if t = closing then some (d.add ending, [], rest)
    else if first then item d t rest
    else if t = .flowEntry then
      match rest with
      | [] => none
      | t :: rest => if t = closing then some (d.add ending, [], rest) else item d t rest
    else none

def flowItems (d : Draft) (t : Token) (rest : List Token) : Step :=
  if t = .key then some (d.add .mappingStart, [.pairKey], rest)
  else some (d, [.node false false, .flowItem false], t :: rest)

def flowMembers (d : Draft) (t : Token) (rest : List Token) : Step :=
  if t = .key then optionalNode false false [.value, .flowEntry, .flowMappingEnd] .flowValue d rest
  else some (d, [.node false false, .flowNoValue], t :: rest)

def step (due : Due) (d : Draft) (ts : List Token) : Step :=
  match due with
  | .node block indentless => readNode block indentless d ts
  | .blockEntry =>
    match ts with
    | .blockEntry :: ts => optionalNode true false [.blockEntry, .blockEnd] .blockEntry d ts
    | .blockEnd :: ts => some (d.add .sequenceEnd, [], ts)
    | _ => none
  | .indentlessEntry =>
    match ts with
    | [] => none
    | .blockEntry :: ts =>
      optionalNode true false [.blockEntry, .key, .value, .blockEnd] .indentlessEntry d ts
    | ts => some (d.add .sequenceEnd, [], ts)
  | .blockKey =>
    match ts with
    | .key :: ts => optionalNode true true [.key, .value, .blockEnd] .blockValue d ts
    | .blockEnd :: ts => some (d.add .mappingEnd, [], ts)
    | _ => none
  | .blockValue =>
    match ts with
    | [] => none
    | .value :: ts => optionalNode true true [.key, .value, .blockEnd] .blockKey d ts
    | ts => some (d.addEmpty, [.blockKey], ts)
  | .flowItem first => nextInFlow first .flowSequenceEnd .sequenceEnd flowItems d ts
  | .pairKey =>
    match ts with
    | [] => none
    | t :: rest =>
      if [.value, .flowEntry, .flowSequenceEnd].contains t then some (d.addEmpty, [.pairValue], rest)
      else some (d, [.node false false, .pairValue], ts)
  | .pairValue =>
    match ts with
    | [] => none
    | .value :: ts => optionalNode false false [.flowEntry, .flowSequenceEnd] .pairEnd d ts
    | ts => some (d.addEmpty, [.pairEnd], ts)
  | .pairEnd => if ts = [] then none else some (d.add .mappingEnd, [.flowItem false], ts)
  | .flowKey first => nextInFlow first .flowMappingEnd .mappingEnd flowMembers d ts
  | .flowValue =>
    match ts with
    | [] => none
    | .value :: ts => optionalNode false false [.flowEntry, .flowMappingEnd] (.flowKey false) d ts
    | ts => some (d.addEmpty, [.flowKey false], ts)
  | .flowNoValue => if ts = [] then none else some (d.addEmpty, [.flowKey false], ts)

end Due

namespace Draft

/-- Reads until nothing is due; gives the tokens left, or none if the text is malformed. -/
def run : Nat → List Due → Draft → List Token → Draft × Option (List Token)
  | _, [], d, ts => (d, some ts)
  | 0, _ :: _, d, _ => (d, none)
  | fuel + 1, due :: dues, d, ts =>
    match due.step d ts with
    | none => (d, none)
    | some (d, more, ts) => run fuel (more ++ dues) d ts

end Draft

/-! ## Directives -/

namespace Directive

def commonHandles : List (List Char × List Char) :=
  [(['!'], ['!']), (['!', '!'], "tag:yaml.org,2002:".toList)]

/-- The handles that the directives of a document declare, and the tokens after them. No handle
may be declared twice, and the version only once; it is 1.1 or 1.2. -/
def readAll (versioned : Bool) (handles : List (List Char × List Char)) :
    List Token → Option (List (List Char × List Char) × List Token)
  | .directive (.version major minor) :: ts =>
    if versioned = true ∨ major ≠ 1 ∨ (minor ≠ 1 ∧ minor ≠ 2) then none
    else readAll true handles ts
  | .directive (.tag handle lead) :: ts =>
    if (handles.lookup handle).isSome then none
    else readAll versioned (handles ++ [(handle, lead)]) ts
  | ts => some (handles ++ commonHandles, ts)

end Directive

namespace Document

def malformed : Document := ⟨[], [], false⟩

def isLast (ts : List Token) : Bool := ts.dropWhile (· = .documentEnd) = [.textEnd]

/-- The document that starts with a node, or is a single empty scalar. -/
def ofContent (handles : List (List Char × List Char)) (empty : Bool) (ts : List Token) :
    Document :=
  let draft : Draft := ⟨handles, [], [], []⟩
  let (draft, left) :=
    if empty then (draft.addEmpty, some ts)
    else draft.run (8 * (ts.length + 1)) [.node true false] ts
  ⟨draft.events.reverse, draft.targets, left.any isLast⟩

/-- Whether a document that starts explicitly has no node. -/
def endsContent : Token → Bool
  | .directive _ | .documentStart | .documentEnd | .textEnd => true
  | _ => false

/-- The first document. A text without any has no events. -/
def ofTokens (ts : List Token) : Document :=
  match ts with
  | [] => malformed
  | .textEnd :: _ => ⟨[], [], true⟩
  | .directive _ :: _ | .documentStart :: _ =>
    match Directive.readAll false [] ts with
    | some (handles, .documentStart :: t :: ts) => ofContent handles (endsContent t) (t :: ts)
    | _ => malformed
  | ts => ofContent Directive.commonHandles false ts

def ofText (text : String) : Document := ofTokens (Tokens.ofText text.toList).tokens

/-- What is written from the target of an alias on. -/
def target (d : Document) (alias' : Nat) : List Event :=
  match d.targets.lookup alias' with
  | none => []
  | some place => d.events.drop place

end Document

end Spindle.Yaml
