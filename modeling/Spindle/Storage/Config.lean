import Spindle.Device.Machine
import Spindle.Text.Blank

/-!
# Classifier settings

The settings that the checks consult, their defaults, and which of them are refused.
-/

namespace Spindle

structure Config where
  /-- Free space must exceed this for a partition or logical volume to be added. -/
  minPartitionSize : UInt64
  /-- Types of filesystems that live in memory. -/
  nonStorageFstypes : List String
  datastoreFstype : String
  deriving DecidableEq, Repr

namespace Config

def leastPartitionSize : UInt64 := 4 * 1024 * 1024

def vmfs6 : String := "vmfs6"

def default : Config where
  minPartitionSize := leastPartitionSize
  nonStorageFstypes := ["ramfs", "tmpfs"]
  datastoreFstype := vmfs6

inductive Fault where
  | zeroMinPartitionSize
  | blankDatastoreFstype
  deriving DecidableEq, Repr

namespace Fault

def message : Fault → String
  | zeroMinPartitionSize => "min_partition_size must be greater than zero"
  | blankDatastoreFstype => "datastore_fstype must not be empty"

end Fault

/-- Refuses a threshold of zero, then a datastore type of white space alone. -/
def validate (c : Config) : Except Fault Config :=
  if c.minPartitionSize = 0 then .error .zeroMinPartitionSize
  else if Text.isAllBlank c.datastoreFstype then .error .blankDatastoreFstype
  else .ok c

end Config

end Spindle
