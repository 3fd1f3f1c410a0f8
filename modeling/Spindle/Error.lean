import Spindle.Device.Wire
import Spindle.Storage.Settings

/-!
# Errors

Everything that can go wrong at the edges: reading a file, settings, a snapshot or a status code.
Classification itself never fails.
-/

namespace Spindle

inductive FileFault where
  | missing
  | notUtf8
  deriving DecidableEq, Repr

namespace FileFault

def message : FileFault → String
  | missing => "No such file or directory (os error 2)"
  | notUtf8 => "stream did not contain valid UTF-8"

end FileFault

inductive Error where
  | configuration (fault : Config.Fault)
  | configParse (fault : Yaml.Error)
  | snapshotParse (fault : Json.Error)
  | unknownNodeStatus (code : UInt32)
  | file (fault : FileFault)
  deriving DecidableEq

namespace Error

def message : Error → String
  | configuration fault => "Configuration error: " ++ fault.message
  | configParse fault => "Configuration parse error: " ++ fault.message
  | snapshotParse fault => "Snapshot parse error: " ++ fault.message
  | unknownNodeStatus code => "Unknown node status code: " ++ toString code.toNat
  | file fault => "IO error: " ++ fault.message

/-- Whether the input is to blame rather than the environment. -/
def isUserError : Error → Bool
  | file _ => false
  | _ => true

end Error

def NodeStatus.ofCode (code : UInt32) : Except Error NodeStatus :=
  match ofCode? code with
  | some status => .ok status
  | none => .error (.unknownNodeStatus code)

/-- The settings that a text writes, if they are accepted. -/
def Config.ofText (text : String) : Except Error Config :=
  match ofDocument (.ofText text) with
  | .error e => .error (.configParse e)
  | .ok c =>
    match c.validate with
    | .error e => .error (.configuration e)
    | .ok c => .ok c

def Machine.ofText (text : String) : Except Error Machine :=
  match Json.ofText Machine text with
  | .error e => .error (.snapshotParse e)
  | .ok m => .ok m

/-- The text of a file; no bytes at all say that there is no such file. -/
def fileText (bytes : Option ByteArray) : Except Error String :=
  match bytes with
  | none => .error (.file .missing)
  | some bytes =>
    match String.fromUTF8? bytes with
    | none => .error (.file .notUtf8)
    | some text => .ok text

end Spindle
