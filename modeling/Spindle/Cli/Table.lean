import Spindle.Storage.Available

/-!
# Table of free devices

A header and a line for every row. All columns but the last are padded to their width, counted in
characters; longer cells push the rest of their line to the right.
-/

namespace Spindle

namespace Table

/-- The widths of the columns but the last. -/
def widths : List Nat := [20, 16, 20, 5, 10, 16, 6]

def header : List String :=
  ["NAME", "SERIAL", "MODEL", "BOOT", "SIZE", "TYPE", "NUMA", "ACTIONS"]

def dash : String := "—"

def pad (width : Nat) (cell : String) : String :=
  cell ++ String.ofList (List.replicate (width - cell.length) ' ')

/-- The cells of a line, each but the last padded and followed by a space. -/
def layOut : List Nat → List String → String
  | width :: widths, cell :: cells => pad width cell ++ " " ++ layOut widths cells
  | _, cells => " ".intercalate cells

def line (cells : List String) : String := layOut widths cells ++ "\n"

def bootCell : Option Bool → String
  | some true => "yes"
  | some false => "no"
  | none => dash

def cells (r : Row) : List String := [
  r.name,
  r.serial.getD dash,
  r.model.getD dash,
  bootCell r.boot,
  r.size,
  r.label,
  ",".intercalate (r.numaNodes.map fun n => toString n.toNat),
  " | ".intercalate (r.actions.map (·.label))]

def render (rows : List Row) : String :=
  String.join (line header :: rows.map fun r => line (cells r))

end Table

end Spindle
