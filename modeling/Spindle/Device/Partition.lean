import Spindle.Device.Filesystem

/-! # Partitions -/

namespace Spindle

inductive PartitionKind where
  | partition
  | vmfs6
  deriving DecidableEq, Repr

namespace PartitionKind

def tag : PartitionKind → String
  | partition => "partition"
  | vmfs6 => "vmfs6"

end PartitionKind

structure Partition where
  id : UInt64
  kind : PartitionKind
  name : String
  /-- Bytes. -/
  size : UInt64
  filesystem : Option Filesystem
  tags : List String
  usedFor : String
  deriving DecidableEq, Repr

end Spindle
