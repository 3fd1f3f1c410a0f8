import Spindle.Yaml.Scalar

/-!
# Faults of a settings text

What can be wrong with a YAML text of settings, as causes; `Error.message` has the wording.
-/

namespace Spindle.Yaml

/-- Where in the settings a fault is: everywhere, at a key, or at an item of a list. -/
structure Path where
  /-- The key; a question mark when it is written as an alias. -/
  key : Option String
  index : Option Nat
  deriving DecidableEq, Repr

namespace Path

def root : Path := ⟨none, none⟩

def lead (p : Path) : String :=
  match p.key, p.index with
  | none, _ => ""
  | some key, none => key ++ ": "
  | some key, some i => key ++ "[" ++ toString i ++ "]: "

end Path

inductive Error where
  | malformed
  | wrongType (path : Path) (found : Found) (expected : String)
  | wrongValue (path : Path) (found : Found) (expected : String)
  | duplicateField (key : String)
  deriving DecidableEq

namespace Error

def message : Error → String
  | malformed => "malformed text"
  | wrongType path found expected =>
    path.lead ++ "invalid type: " ++ found.text ++ ", expected " ++ expected
  | wrongValue path found expected =>
    path.lead ++ "invalid value: " ++ found.text ++ ", expected " ++ expected
  | duplicateField key => "duplicate field `" ++ key ++ "`"

end Error

end Spindle.Yaml
