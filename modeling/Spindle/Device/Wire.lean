import Spindle.Device.Machine
import Spindle.Json.Record

/-!
# Snapshot format

How machines, disks, partitions and filesystems are written in a snapshot.
-/

namespace Spindle

open Json (Field Record Tags Wire)

namespace DiskKind

def tags : Tags DiskKind where
  listed := [physical, virtual, volumeGroup, cacheSet, iscsi].map fun k => (k.tag, k)
  other := none

instance : Wire DiskKind where
  reader := tags.reader
  write k := .string k.tag

end DiskKind

namespace PartitionKind

def tags : Tags PartitionKind where
  listed := [partition, vmfs6].map fun k => (k.tag, k)
  other := none

instance : Wire PartitionKind where
  reader := tags.reader
  write k := .string k.tag

end PartitionKind

namespace RaidLevel

def all : List RaidLevel := [zero, one, five, six, ten]

def tag (l : RaidLevel) : String := "Raid" ++ toString l.number

def tags : Tags RaidLevel where
  listed := all.map fun l => (l.tag, l)
  other := none

instance : Wire RaidLevel where
  reader := tags.reader
  write l := .string l.tag

end RaidLevel

namespace GroupKind

def tag : GroupKind → String
  | volumeGroup => "lvm-vg"
  | bcache => "bcache"
  | raid level => "raid-" ++ toString level.number
  | unknown => "Unknown"

/-- Every tag that is not listed, `Unknown` among them, is an unknown group. -/
def tags : Tags GroupKind where
  listed := (volumeGroup :: bcache :: RaidLevel.all.map raid).map fun k => (k.tag, k)
  other := some unknown

instance : Wire GroupKind where
  reader := tags.reader
  write k := .string k.tag

end GroupKind

namespace Filesystem

def record : Record Filesystem [String, String, Option String, Bool] where
  name := "Filesystem"
  fields := (.required "fstype", .defaulted "mount_point" "", .defaulted "mount_options" none,
    .defaulted "is_format_fstype" false, ())
  build := Filesystem.mk
  parts fs := (fs.fstype, fs.mountPoint, fs.mountOptions, fs.formattable, ())

instance : Wire Filesystem := record.wire

end Filesystem

namespace Partition

def record : Record Partition
    [UInt64, PartitionKind, String, UInt64, Option Filesystem, List String, String] where
  name := "Partition"
  fields := (.required "id", .required "type", .defaulted "name" "", .required "size",
    .defaulted "filesystem" none, .defaulted "tags" [], .defaulted "used_for" "", ())
  build := Partition.mk
  parts p := (p.id, p.kind, p.name, p.size, p.filesystem, p.tags, p.usedFor, ())

instance : Wire Partition := record.wire

end Partition

namespace Parent

def record : Record Parent [UInt64, GroupKind, String] where
  name := "DiskParent"
  fields := (.required "id", .required "type", .defaulted "uuid" "", ())
  build := Parent.mk
  parts p := (p.id, p.kind, p.uuid, ())

instance : Wire Parent := record.wire

end Parent

namespace Disk

def record : Record Disk
    [UInt64, DiskKind, String, UInt64, UInt64, UInt64, Option Filesystem, List Partition,
      Option Parent, List String, Option UInt32, Option (List UInt32), Bool, String, String,
      String, Option Int32] where
  name := "Disk"
  fields := (.required "id", .required "type", .defaulted "name" "", .required "size",
    .defaulted "available_size" 0, .defaulted "used_size" 0, .defaulted "filesystem" none,
    .defaulted "partitions" [], .defaulted "parent" none, .defaulted "tags" [],
    .defaulted "numa_node" none, .defaulted "numa_nodes" none, .defaulted "is_boot" false,
    .defaulted "model" "", .defaulted "serial" "", .defaulted "firmware_version" "",
    .defaulted "test_status" none, ())
  build := Disk.mk
  parts d := (d.id, d.kind, d.name, d.size, d.availableSize, d.usedSize, d.filesystem,
    d.partitions, d.parent, d.tags, d.numaNode, d.numaNodeList, d.isBoot, d.model, d.serial,
    d.firmware, d.testStatus, ())

instance : Wire Disk := record.wire

end Disk

namespace SupportedFilesystem

def record : Record SupportedFilesystem [String, String] where
  name := "SupportedFilesystem"
  fields := (.required "key", .required "ui", ())
  build := SupportedFilesystem.mk
  parts s := (s.key, s.ui, ())

instance : Wire SupportedFilesystem := record.wire

end SupportedFilesystem

namespace Machine

def record : Record Machine
    [String, String, String, UInt32, List Disk, List SupportedFilesystem] where
  name := "Machine"
  fields := (.required "system_id", .defaulted "hostname" "", .defaulted "osystem" "",
    .required "status_code", .defaulted "disks" [], .defaulted "supported_filesystems" [], ())
  build := Machine.mk
  parts m := (m.systemId, m.hostname, m.osystem, m.statusCode, m.disks,
    m.supportedFilesystems, ())

instance : Wire Machine := record.wire

end Machine

end Spindle
