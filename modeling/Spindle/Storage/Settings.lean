import Spindle.Storage.Config
import Spindle.Yaml.Error

/-!
# Settings text

Reads the settings of the classifier from a YAML mapping. Keys that are not written keep their
defaults, unknown keys are passed over, and the first fault in the order of the text counts.
-/

namespace Spindle

namespace Yaml

/-- The first event of a node, which an alias shares with its target. -/
def Document.resolve (d : Document) (e : Event) : Option Event :=
  match e with
  | .alias target => (d.target target).head?
  | e => some e

/-- What is wrong with a node when `expected` was due. -/
def mismatch (path : Path) (expected : String) (e : Event) : Error :=
  match e with
  | .sequenceStart => .wrongType path .sequence expected
  | .mappingStart => .wrongType path .map expected
  | .scalar s =>
    match s.meaning with
    | .ok f => .wrongType path f expected
    | .error wanted => .wrongValue path (.string s.text) wanted
  | .alias _ | .sequenceEnd | .mappingEnd => .malformed

/-- Whether a scalar is empty and plain, as where nothing is written. -/
def Scalar.isEmpty (s : Scalar) : Bool := s.text = "" && s.style = .plain

def readText (d : Document) (path : Path) (expected : String) (e : Event) : Except Error String :=
  match d.resolve e with
  | none => .error .malformed
  | some (.scalar s) => .ok s.text
  | some e => .error (mismatch path expected e)

def readWord (d : Document) (path : Path) (e : Event) : Except Error UInt64 :=
  match d.resolve e with
  | none => .error .malformed
  | some (.scalar s) =>
    match s.word? with
    | some n => .ok n
    | none => .error (mismatch path "u64" (.scalar s))
  | some e => .error (mismatch path "u64" e)

/-- The texts of a sequence from the item with the given number on. -/
def readItems (d : Document) (path : Path) : Nat → List Event →
    Except Error (List String × List Event)
  | _, [] => .error .malformed
  | _, .sequenceEnd :: rest => .ok ([], rest)
  | i, e :: rest =>
    match readText d { path with index := some i } "a string" e with
    | .error e => .error e
    | .ok s =>
      match readItems d path (i + 1) rest with
      | .error e => .error e
      | .ok (ss, rest) => .ok (s :: ss, rest)

/-- A sequence of texts that is not written as an alias. -/
def readSequence (d : Document) (path : Path) (events : List Event) :
    Except Error (List String × List Event) :=
  match events with
  | [] => .error .malformed
  | .sequenceStart :: rest => readItems d path 0 rest
  | .scalar s :: rest =>
    if s.isEmpty then .ok ([], rest) else .error (mismatch path "a sequence" (.scalar s))
  | e :: _ => .error (mismatch path "a sequence" e)

def readList (d : Document) (path : Path) (events : List Event) :
    Except Error (List String × List Event) :=
  match events with
  | .alias target :: rest =>
    match readSequence d path (d.target target) with
    | .error e => .error e
    | .ok (ss, _) => .ok (ss, rest)
  | events => readSequence d path events

/-- Passes over a node; `depth` collections of it are open. -/
def skipNode : (depth : Nat) → List Event → Option (List Event)
  | _, [] => none
  | depth, e :: rest =>
    let depth := match e with
      | .sequenceStart | .mappingStart => depth + 1
      | .sequenceEnd | .mappingEnd => depth - 1
      | .scalar _ | .alias _ => depth
    if depth = 0 then some rest else skipNode depth rest

end Yaml

namespace Config

open Yaml (Document Event Path)

structure Draft where
  minPartitionSize : Option UInt64
  nonStorageFstypes : Option (List String)
  datastoreFstype : Option String

namespace Draft

def complete (r : Draft) : Config where
  minPartitionSize := r.minPartitionSize.getD default.minPartitionSize
  nonStorageFstypes := r.nonStorageFstypes.getD default.nonStorageFstypes
  datastoreFstype := r.datastoreFstype.getD default.datastoreFstype

def readValue (d : Document) (r : Draft) (path : Path) (key : String) (events : List Event) :
    Except Yaml.Error (Draft × List Event) :=
  if key = "min_partition_size" then
    if r.minPartitionSize.isSome then .error (.duplicateField key)
    else
      match events with
      | [] => .error .malformed
      | e :: rest => (Yaml.readWord d path e).map fun n =>
        ({ r with minPartitionSize := some n }, rest)
  else if key = "non_storage_fstypes" then
    if r.nonStorageFstypes.isSome then .error (.duplicateField key)
    else (Yaml.readList d path events).map fun (ss, rest) =>
      ({ r with nonStorageFstypes := some ss }, rest)
  else if key = "datastore_fstype" then
    if r.datastoreFstype.isSome then .error (.duplicateField key)
    else
      match events with
      | [] => .error .malformed
      | e :: rest => (Yaml.readText d path "a string" e).map fun s =>
        ({ r with datastoreFstype := some s }, rest)
  else
    match Yaml.skipNode 0 events with
    | none => .error .malformed
    | some rest => .ok (r, rest)

def readMembers (d : Document) (r : Draft) (events : List Event) : Except Yaml.Error Draft :=
  match events with
  | [] => .error .malformed
  | .mappingEnd :: _ => .ok r
  | e :: rest =>
    match Yaml.readText d .root "field identifier" e with
    | .error e => .error e
    | .ok key =>
      let name := match e with
        | .alias _ => "?"
        | _ => key
      match readValue d r ⟨some name, none⟩ key rest with
      | .error e => .error e
      | .ok (r, next) =>
        if next.length ≤ rest.length then readMembers d r next else .error .malformed
termination_by events.length

end Draft

/-- The settings of a document; one without a node has the defaults. -/
def ofDocument (d : Document) : Except Yaml.Error Config :=
  let result : Except Yaml.Error Config :=
    match d.events with
    | [] => .ok default
    | .mappingStart :: rest => (Draft.readMembers d ⟨none, none, none⟩ rest).map (·.complete)
    | .scalar s :: _ =>
      if s.isEmpty then .ok default
      else .error (Yaml.mismatch .root "struct ClassifierConfig" (.scalar s))
    | e :: _ => .error (Yaml.mismatch .root "struct ClassifierConfig" e)
  match result with
  | .error e => .error e
  | .ok c => if d.sound then .ok c else .error .malformed

end Config

end Spindle
