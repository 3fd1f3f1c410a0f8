import Spindle.Device.Disk

/-!
# Machines

A machine with its disks, the devices in it, its status, and what its status and operating system
allow.
-/

namespace Spindle

inductive Device where
  | disk (d : Disk)
  | partition (p : Partition)
  deriving DecidableEq, Repr

namespace Device

def id : Device → UInt64
  | disk d => d.id
  | partition p => p.id

def tag : Device → String
  | disk d => d.kind.tag
  | partition p => p.kind.tag

/-- The tag tells a disk from a partition of the same number. -/
def key (d : Device) : String := d.tag ++ "-" ++ toString d.id.toNat

def name : Device → String
  | disk d => d.name
  | partition p => p.name

def size : Device → UInt64
  | disk d => d.size
  | partition p => p.size

def filesystem : Device → Option Filesystem
  | disk d => d.filesystem
  | partition p => p.filesystem

def tags : Device → List String
  | disk d => d.tags
  | partition p => p.tags

end Device

inductive NodeStatus where
  | new
  | commissioning
  | failedCommissioning
  | missing
  | ready
  | reserved
  | deployed
  | retired
  | broken
  | deploying
  | allocated
  | failedDeployment
  | releasing
  | failedReleasing
  | diskErasing
  | failedDiskErasing
  | rescueMode
  | enteringRescueMode
  | failedEnteringRescueMode
  | exitingRescueMode
  | failedExitingRescueMode
  | testing
  | failedTesting
  deriving DecidableEq, Repr

namespace NodeStatus

/-- Every status; its place is its code. -/
def all : List NodeStatus := [
  new, commissioning, failedCommissioning, missing, ready, reserved, deployed, retired, broken,
  deploying, allocated, failedDeployment, releasing, failedReleasing, diskErasing,
  failedDiskErasing, rescueMode, enteringRescueMode, failedEnteringRescueMode,
  exitingRescueMode, failedExitingRescueMode, testing, failedTesting]

def ofCode? (code : UInt32) : Option NodeStatus := all[code.toNat]?

end NodeStatus

structure SupportedFilesystem where
  key : String
  ui : String
  deriving DecidableEq, Repr

structure Machine where
  systemId : String
  hostname : String
  osystem : String
  statusCode : UInt32
  disks : List Disk
  supportedFilesystems : List SupportedFilesystem
  deriving DecidableEq, Repr

namespace Machine

/-- Every device: each disk, followed by its partitions. -/
def devices (m : Machine) : List Device :=
  m.disks.flatMap fun d => .disk d :: d.partitions.map .partition

/-- Storage may be changed on a machine that is ready or allocated, not on one of unknown
status. -/
def isConfigurable (m : Machine) : Bool :=
  match NodeStatus.ofCode? m.statusCode with
  | some .ready | some .allocated => true
  | _ => false

/-- Whether the operating system can be deployed with a storage layout of its own. -/
def supportsStorageLayout (m : Machine) : Bool :=
  ["centos", "rhel", "ubuntu"].contains m.osystem

def supportsBcacheZfs (m : Machine) : Bool := m.osystem == "ubuntu"

end Machine

end Spindle
