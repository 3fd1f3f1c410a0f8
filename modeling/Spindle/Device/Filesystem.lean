/-!
# Filesystems

A filesystem on a disk or partition, and when it counts as mounted.
-/

namespace Spindle

structure Filesystem where
  /-- The type, such as `ext4` or `vmfs6`. -/
  fstype : String
  /-- Empty when unmounted. -/
  mountPoint : String
  mountOptions : Option String
  formattable : Bool
  deriving DecidableEq, Repr

namespace Filesystem

/-- The mount point of a filesystem that is set aside and not mounted. -/
def reservedMountPoint : String := "RESERVED"

def isReserved (fs : Filesystem) : Bool := fs.mountPoint == reservedMountPoint

def isMounted (fs : Filesystem) : Bool := fs.mountPoint != "" && !fs.isReserved

end Filesystem

end Spindle
