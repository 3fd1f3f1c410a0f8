import Spindle.Device.Partition

/-!
# Disks

A top-level block device. A virtual disk is built from a group of devices, its parent;
`Disk.logicalKind` says what that makes it.
-/

namespace Spindle

inductive DiskKind where
  | physical
  | virtual
  | volumeGroup
  | cacheSet
  | iscsi
  deriving DecidableEq, Repr

namespace DiskKind

def tag : DiskKind → String
  | physical => "physical"
  | virtual => "virtual"
  | volumeGroup => "lvm-vg"
  | cacheSet => "cache-set"
  | iscsi => "iscsi"

end DiskKind

inductive RaidLevel where
  | zero
  | one
  | five
  | six
  | ten
  deriving DecidableEq, Repr

namespace RaidLevel

def number : RaidLevel → Nat
  | zero => 0
  | one => 1
  | five => 5
  | six => 6
  | ten => 10

end RaidLevel

inductive GroupKind where
  | volumeGroup
  | bcache
  | raid (level : RaidLevel)
  | unknown
  deriving DecidableEq, Repr

structure Parent where
  id : UInt64
  kind : GroupKind
  uuid : String
  deriving DecidableEq, Repr

structure Disk where
  id : UInt64
  kind : DiskKind
  name : String
  /-- Bytes in all. -/
  size : UInt64
  /-- Bytes not yet given to partitions or logical volumes. -/
  availableSize : UInt64
  /-- Bytes given to partitions or logical volumes. -/
  usedSize : UInt64
  filesystem : Option Filesystem
  partitions : List Partition
  parent : Option Parent
  tags : List String
  /-- The node of a physical disk. -/
  numaNode : Option UInt32
  /-- The nodes that a virtual disk or volume group spans. -/
  numaNodeList : Option (List UInt32)
  isBoot : Bool
  model : String
  serial : String
  firmware : String
  testStatus : Option Int32
  deriving DecidableEq, Repr

inductive LogicalKind where
  | plain
  | raid (level : RaidLevel)
  | logicalVolume
  | bcache
  deriving DecidableEq, Repr

namespace GroupKind

def logicalKind : GroupKind → LogicalKind
  | volumeGroup => .logicalVolume
  | bcache => .bcache
  | raid level => .raid level
  | unknown => .plain

end GroupKind

namespace Disk

/-- A disk with all of its space free and nothing on it. -/
def new (id : UInt64) (kind : DiskKind) (size : UInt64) : Disk where
  id
  kind
  name := ""
  size
  availableSize := size
  usedSize := 0
  filesystem := none
  partitions := []
  parent := none
  tags := []
  numaNode := none
  numaNodeList := none
  isBoot := false
  model := ""
  serial := ""
  firmware := ""
  testStatus := none

/-- Only virtual disks have a logical kind; one without a parent is plain. -/
def logicalKind (d : Disk) : Option LogicalKind :=
  if d.kind = .virtual then some ((d.parent.map (·.kind.logicalKind)).getD .plain) else none

/-- The nodes of the disk; a list of them wins over a single one. -/
def numaNodes (d : Disk) : List UInt32 :=
  d.numaNodeList.getD d.numaNode.toList

end Disk

end Spindle
