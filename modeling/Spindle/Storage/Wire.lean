import Spindle.Device.Wire
import Spindle.Storage.Available

/-!
# Result formats

How settings, reports, actions and rows are written.
-/

namespace Spindle

open Json (Field Record Tags Wire)

namespace Config

def record : Record Config [UInt64, List String, String] where
  name := "ClassifierConfig"
  fields := (.defaulted "min_partition_size" default.minPartitionSize,
    .defaulted "non_storage_fstypes" default.nonStorageFstypes,
    .defaulted "datastore_fstype" default.datastoreFstype, ())
  build := Config.mk
  parts c := (c.minPartitionSize, c.nonStorageFstypes, c.datastoreFstype, ())

instance : Wire Config := record.wire

end Config

namespace Report

def record : Record Report
    [String, String, String, String, UInt64, Bool, Bool, Bool, Bool, Bool, Bool, Bool, Bool] where
  name := "DeviceReport"
  fields := (.required "id", .required "name", .required "label", .required "size",
    .required "size_bytes", .required "available", .required "mounted", .required "formattable",
    .required "uses_storage", .required "datastore", .required "can_be_partitioned",
    .required "can_create_logical_volume", .required "can_be_deleted", ())
  build := Report.mk
  parts r := (r.key, r.name, r.label, r.size, r.bytes, r.available, r.mounted, r.formattable,
    r.usesStorage, r.datastore, r.canBePartitioned, r.canCreateLogicalVolume, r.canBeDeleted, ())

instance : Wire Report := record.wire

end Report

namespace Action

def tag : Action → String
  | addPartition => "addPartition"
  | addLogicalVolume => "addLogicalVolume"
  | removeVolumeGroup => "removeVolumeGroup"
  | removeDisk => "removeDisk"
  | removePartition => "removePartition"
  | editPartition => "editPartition"

def tags : Tags Action where
  listed := [addPartition, addLogicalVolume, removeVolumeGroup, removeDisk, removePartition,
    editPartition].map fun a => (a.tag, a)
  other := none

instance : Wire Action where
  reader := tags.reader
  write a := .string a.tag

end Action

namespace ActionLink

def record : Record ActionLink [Action, String] where
  name := "ActionLink"
  fields := (.required "action", .required "label", ())
  build := ActionLink.mk
  parts l := (l.action, l.label, ())

instance : Wire ActionLink := record.wire

end ActionLink

namespace Row

def record : Record Row
    [String, String, Option String, Option String, Option String, Option Bool, String, String,
      List UInt32, Option Int32, List String, List ActionLink] where
  name := "StorageRow"
  fields := (.required "id", .required "name", .nullable "serial", .nullable "model",
    .nullable "firmware", .nullable "boot", .required "size", .required "type_label",
    .required "numa_nodes", .nullable "test_status", .required "tags", .required "actions", ())
  build := Row.mk
  parts r := (r.key, r.name, r.serial, r.model, r.firmware, r.boot, r.size, r.label,
    r.numaNodes, r.testStatus, r.tags, r.actions, ())

instance : Wire Row := record.wire

end Row

end Spindle
