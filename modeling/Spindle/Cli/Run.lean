import Spindle.Cli.Help
import Spindle.Error
import Spindle.Schema.Snapshot
import Spindle.Storage.Wire

/-!
# Runs

What a run prints and how it ends, as a function of its arguments and of the files that they name.
Nothing is printed unless every step succeeds.
-/

namespace Spindle.Cli

open Json (Value Wire)

/-- The end of a path adds no part to it: only separators and parts that are a single dot. -/
def addsNoPart : List Char → Bool
  | [] => true
  | '/' :: '.' :: cs => addsNoPart cs
  | '/' :: cs => addsNoPart cs
  | _ => false

/-- A path of which a dash is the only part, with or without separators behind it. -/
def isDash (name : String) : Bool :=
  match name.toList with
  | '-' :: cs => addsNoPart cs
  | _ => false

/-- What can be read: the files that exist, and the standard input. -/
structure Files where
  bytes : String → Option ByteArray
  input : ByteArray

structure Outcome where
  exit : UInt8
  stdout : String
  deriving DecidableEq

namespace Outcome

def done (stdout : String) : Outcome := ⟨0, stdout⟩

/-- Bad input and wrong usage end a run with 2, trouble with a file ends it with 1. -/
def failed (e : Error) : Outcome := ⟨if e.isUserError then 2 else 1, ""⟩

end Outcome

namespace Files

def config (files : Files) (name : Option String) : Except Error Config :=
  match name with
  | none => .ok .default
  | some name =>
    match fileText (files.bytes name) with
    | .error e => .error e
    | .ok text => Config.ofText text

/-- The machine of a snapshot; a dash names the standard input. -/
def machine (files : Files) (name : String) : Except Error Machine :=
  match fileText (if isDash name then some files.input else files.bytes name) with
  | .error e => .error e
  | .ok text => Machine.ofText text

end Files

def noRows : String := "No available disks or partitions.\n"

/-- The text of a list of records, one member a line. -/
def listText [Wire α] (vs : List α) : String := (Wire.write vs).pretty ++ "\n"

def output (files : Files) (c : Config) : Command → Except Error String
  | .available snapshot json =>
    match files.machine snapshot with
    | .error e => .error e
    | .ok m =>
      let rows := c.available m
      .ok (if json then listText rows else if rows.isEmpty then noRows else Table.render rows)
  | .classify snapshot =>
    match files.machine snapshot with
    | .error e => .error e
    | .ok m => .ok (listText (m.devices.map c.report))
  | .schema => .ok (Schema.snapshot.value.pretty ++ "\n")

/-- The settings are read first, whatever the command. -/
def run (files : Files) (args : Arguments) : Outcome :=
  match files.config args.config with
  | .error e => .failed e
  | .ok c =>
    match output files c args.command with
    | .error e => .failed e
    | .ok text => .done text

def version : String := "machine-storage 0.2.0\n"

def invoke (files : Files) (env : Environment) (args : List String) : Outcome :=
  match Arguments.read env args with
  | .error .wrongUsage => ⟨2, ""⟩
  | .error (.helpWanted topic) => .done (topic.page env).render
  | .error .versionWanted => .done version
  | .ok args => run files args

end Spindle.Cli
