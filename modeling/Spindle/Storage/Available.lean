import Spindle.Storage.Classifier

/-!
# Available storage

The actions that a device offers, and the rows of the devices that are free to use.
-/

namespace Spindle

inductive Action where
  | addPartition
  | addLogicalVolume
  | removeVolumeGroup
  | removeDisk
  | removePartition
  | editPartition
  deriving DecidableEq, Repr

structure ActionLink where
  action : Action
  label : String
  deriving DecidableEq, Repr

def Config.diskActions (c : Config) (d : Disk) : List ActionLink :=
  (if c.canBePartitioned d then [⟨.addPartition, "Add partition..."⟩] else []) ++
  (if c.canCreateLogicalVolume d then [⟨.addLogicalVolume, "Add logical volume..."⟩] else []) ++
  (if d.canBeDeleted then
    if d.isVolumeGroup then [⟨.removeVolumeGroup, "Remove volume group..."⟩]
    else [⟨.removeDisk, "Remove " ++ d.phrase ++ "..."⟩]
  else [])

def partitionActions : List ActionLink :=
  [⟨.removePartition, "Remove partition..."⟩, ⟨.editPartition, "Edit partition..."⟩]

/-- One free device; a partition has none of the columns of a disk. -/
structure Row where
  key : String
  name : String
  serial : Option String
  model : Option String
  firmware : Option String
  boot : Option Bool
  size : String
  label : String
  numaNodes : List UInt32
  testStatus : Option Int32
  tags : List String
  actions : List ActionLink
  deriving DecidableEq, Repr

namespace Row

def ofDisk (d : Disk) (actions : List ActionLink) : Row where
  key := (Device.disk d).key
  name := d.name
  serial := some d.serial
  model := some d.model
  firmware := some d.firmware
  boot := some d.isBoot
  size := Size.format (some d.size)
  label := d.label
  numaNodes := d.numaNodes
  testStatus := d.testStatus
  tags := d.tags
  actions

def ofPartition (p : Partition) (actions : List ActionLink) : Row where
  key := (Device.partition p).key
  name := p.name
  serial := none
  model := none
  firmware := none
  boot := none
  size := Size.format (some p.size)
  label := p.label
  numaNodes := []
  testStatus := none
  tags := p.tags
  actions

end Row

namespace Config

/-- The row of a disk, unless it is taken or a datastore. -/
def diskRow? (c : Config) (d : Disk) : Option Row :=
  if d.isAvailable && !d.filesystem.any c.isDatastore then some (.ofDisk d (c.diskActions d))
  else none

def partitionRow? (c : Config) (p : Partition) : Option Row :=
  if p.isAvailable && !p.filesystem.any c.isDatastore then some (.ofPartition p partitionActions)
  else none

/-- The free devices of a machine; a partition has its row whether or not its disk has one. -/
def available (c : Config) (m : Machine) : List Row :=
  m.disks.flatMap fun d => (c.diskRow? d).toList ++ d.partitions.filterMap c.partitionRow?

end Config

end Spindle
