import Mathlib.Data.List.Forall2
import Spindle.Storage.Available

/-!
# Free devices and reports

The list of free devices is built disk by disk, the reports device by device. `available_eq` shows
that the list is the rows of the devices whose reports call them free.
-/

namespace Spindle

/-- A row and a report that tell the same about a device. -/
structure Row.Agrees (row : Row) (r : Report) : Prop where
  key : row.key = r.key
  name : row.name = r.name
  size : row.size = r.size
  label : row.label = r.label

/-- The columns that no report has. -/
def Row.Shows (row : Row) : Device → Prop
  | .disk d =>
    row.serial = some d.serial ∧ row.model = some d.model ∧ row.firmware = some d.firmware ∧
      row.boot = some d.isBoot ∧ row.numaNodes = d.numaNodes ∧ row.testStatus = d.testStatus ∧
      row.tags = d.tags
  | .partition p =>
    row.serial = none ∧ row.model = none ∧ row.firmware = none ∧ row.boot = none ∧
      row.numaNodes = [] ∧ row.testStatus = none ∧ row.tags = p.tags

namespace Config

variable (c : Config)

def reportsFree (d : Device) : Bool := (c.report d).available && !(c.report d).datastore

def row : Device → Row
  | .disk d => .ofDisk d (c.diskActions d)
  | .partition p => .ofPartition p partitionActions

theorem row_agrees (d : Device) : (c.row d).Agrees (c.report d) := by
  cases d <;> exact ⟨rfl, rfl, rfl, rfl⟩

theorem row_shows (d : Device) : (c.row d).Shows d := by
  cases d <;> exact ⟨rfl, rfl, rfl, rfl, rfl, rfl, rfl⟩

/-! ### Both traversals -/

theorem diskRow?_eq (d : Disk) :
    c.diskRow? d = if c.reportsFree (.disk d) then some (c.row (.disk d)) else none := rfl

theorem partitionRow?_eq (p : Partition) :
    c.partitionRow? p = if c.reportsFree (.partition p) then some (c.row (.partition p)) else none :=
  rfl

theorem toList_diskRow? (d : Disk) :
    (c.diskRow? d).toList = ([Device.disk d].filter c.reportsFree).map c.row := by
  rw [diskRow?_eq]
  by_cases free : c.reportsFree (.disk d)
  · rw [if_pos free, List.filter_cons_of_pos free]
    rfl
  · rw [if_neg free, List.filter_cons_of_neg free]
    rfl

theorem filterMap_partitionRow? (ps : List Partition) :
    ps.filterMap c.partitionRow? = ((ps.map Device.partition).filter c.reportsFree).map c.row := by
  induction ps with
  | nil => rfl
  | cons p ps ih =>
    rw [List.map_cons]
    by_cases free : c.reportsFree (.partition p)
    · rw [List.filterMap_cons_some (by rw [partitionRow?_eq, if_pos free]),
        List.filter_cons_of_pos free, List.map_cons, ih]
    · rw [List.filterMap_cons_none (by rw [partitionRow?_eq, if_neg free]),
        List.filter_cons_of_neg free, ih]

theorem available_eq (m : Machine) :
    c.available m = (m.devices.filter c.reportsFree).map c.row := by
  unfold available Machine.devices
  induction m.disks with
  | nil => rfl
  | cons d ds ih =>
    rw [List.flatMap_cons, List.flatMap_cons, List.filter_append, List.map_append, ih,
      toList_diskRow?, filterMap_partitionRow?, ← List.map_append, ← List.filter_append,
      List.singleton_append]

theorem row_mem_available {m : Machine} {d : Device} (member : d ∈ m.devices)
    (free : c.reportsFree d) : c.row d ∈ c.available m := by
  rw [available_eq]
  exact List.mem_map_of_mem (List.mem_filter.mpr ⟨member, free⟩)

theorem partition_mem_devices {m : Machine} {d : Disk} {p : Partition} (disk : d ∈ m.disks)
    (part : p ∈ d.partitions) : Device.partition p ∈ m.devices :=
  List.mem_flatMap.mpr ⟨d, disk, List.mem_cons_of_mem _ (List.mem_map_of_mem part)⟩

/-- The rows stand, one for one and in order, for the devices that their reports call free; that of
a partition does not depend on its disk. -/
theorem available_rows_match_reports (m : Machine) :
    List.Forall₂ (fun row d => row.Agrees (c.report d) ∧ row.Shows d) (c.available m)
      (m.devices.filter fun d => (c.report d).available = true ∧ (c.report d).datastore = false) ∧
    ∀ d ∈ m.disks, ∀ p ∈ d.partitions, c.reportsFree (.partition p) →
      ∃ row ∈ c.available m, row.Agrees (c.report (.partition p)) ∧ row.Shows (.partition p) := by
  constructor
  · have same : (fun d => decide ((c.report d).available = true ∧ (c.report d).datastore = false)) =
        c.reportsFree := by
      funext d
      simp [reportsFree]
    rw [same, available_eq, List.forall₂_map_left_iff, List.forall₂_same]
    intro d _
    exact ⟨c.row_agrees d, c.row_shows d⟩
  · intro d disk p part free
    exact ⟨_, c.row_mem_available (partition_mem_devices disk part) free, c.row_agrees _,
      c.row_shows _⟩

end Config

end Spindle
