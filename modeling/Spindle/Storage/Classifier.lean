import Spindle.Device.Label
import Spindle.Storage.Config
import Spindle.Storage.Size

/-!
# Classification

What a disk, partition or filesystem is and what may be done with it, check by check, and all of
it together in a report.
-/

namespace Spindle

namespace Disk

def isPhysical (d : Disk) : Bool := d.kind = .physical

/-- Holds of RAIDs, logical volumes and bcaches too. -/
def isVirtual (d : Disk) : Bool := d.kind = .virtual

def isLogicalVolume (d : Disk) : Bool := d.logicalKind = some .logicalVolume

def isRaid (d : Disk) : Bool :=
  match d.logicalKind with
  | some (.raid _) => true
  | _ => false

def isBcache (d : Disk) : Bool := d.logicalKind = some .bcache

def isCacheSet (d : Disk) : Bool := d.kind = .cacheSet

def isVolumeGroup (d : Disk) : Bool := d.kind = .volumeGroup

def isMounted (d : Disk) : Bool := d.filesystem.any (·.isMounted)

/-- Whether the disk can still be assigned to something. -/
def isAvailable (d : Disk) : Bool := !d.isCacheSet && !d.isMounted

def isPartitionable (d : Disk) : Bool :=
  match d.kind with
  | .physical => true
  | .virtual =>
    match d.logicalKind with
    | some .plain | some (.raid _) => true
    | _ => false
  | .volumeGroup | .cacheSet | .iscsi => false

/-- A volume group can be removed once nothing is allocated from it, any other disk once it has
no partitions. -/
def canBeDeleted (d : Disk) : Bool :=
  if d.isVolumeGroup then d.usedSize == 0 else d.partitions.isEmpty

end Disk

namespace Partition

def isAvailable (p : Partition) : Bool := !p.filesystem.any (·.isMounted)

end Partition

namespace Device

def isPartition : Device → Bool
  | disk _ => false
  | partition _ => true

def isAvailable : Device → Bool
  | disk d => d.isAvailable
  | partition p => p.isAvailable

end Device

namespace Config

def isDatastore (c : Config) (fs : Filesystem) : Bool := fs.fstype == c.datastoreFstype

def usesStorage (c : Config) (fs : Filesystem) : Bool := !c.nonStorageFstypes.contains fs.fstype

/-- A disk takes a new partition when its kind does, it has no filesystem of its own, and there
is room for one. -/
def canBePartitioned (c : Config) (d : Disk) : Bool :=
  d.isPartitionable && d.filesystem.isNone && c.minPartitionSize < d.availableSize

/-- Whether a logical volume can be carved out of a volume group. -/
def canCreateLogicalVolume (c : Config) (d : Disk) : Bool :=
  d.isVolumeGroup && !d.isMounted && c.minPartitionSize < d.availableSize

end Config

/-- Everything the checks say about one device. -/
structure Report where
  key : String
  name : String
  label : String
  size : String
  bytes : UInt64
  available : Bool
  mounted : Bool
  formattable : Bool
  usesStorage : Bool
  datastore : Bool
  canBePartitioned : Bool
  canCreateLogicalVolume : Bool
  canBeDeleted : Bool
  deriving DecidableEq, Repr

namespace Config

def report (c : Config) (d : Device) : Report where
  key := d.key
  name := d.name
  label := d.label
  size := Size.format (some d.size)
  bytes := d.size
  available := d.isAvailable
  mounted := d.filesystem.any (·.isMounted)
  formattable := d.filesystem.any (·.formattable)
  usesStorage := d.filesystem.any c.usesStorage
  datastore := d.filesystem.any c.isDatastore
  canBePartitioned :=
    match d with
    | .disk d => c.canBePartitioned d
    | .partition _ => false
  canCreateLogicalVolume :=
    match d with
    | .disk d => c.canCreateLogicalVolume d
    | .partition _ => false
  canBeDeleted :=
    match d with
    | .disk d => d.canBeDeleted
    | .partition _ => false

end Config

end Spindle
