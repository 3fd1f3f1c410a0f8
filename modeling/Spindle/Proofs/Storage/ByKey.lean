import Spindle.Proofs.Device.ByKey
import Spindle.Proofs.Storage.RoundTrip

/-!
# Results by their keys

What an object gives to settings, reports, actions and rows, and how the objects of every record
are read.
-/

namespace Spindle

open Json Json.Field

structure Config.GivenBy (o : ObjectText) (c : Config) : Prop where
  minPartitionSize :
    c.minPartitionSize = (o.given "min_partition_size").getD Config.default.minPartitionSize
  nonStorageFstypes :
    c.nonStorageFstypes = (o.given "non_storage_fstypes").getD Config.default.nonStorageFstypes
  datastoreFstype :
    c.datastoreFstype = (o.given "datastore_fstype").getD Config.default.datastoreFstype

theorem Config.readsByKey :
    ReadsByKey Config record.fields [] GivenBy := by
  refine record_lawful.readsByKey rfl fun o vs holds => ?_
  obtain ⟨minPartitionSize, nonStorageFstypes, datastoreFstype, -⟩ := holds
  exact ⟨getD_of_defaulted minPartitionSize, getD_of_defaulted nonStorageFstypes,
    getD_of_defaulted datastoreFstype⟩

structure Report.GivenBy (o : ObjectText) (r : Report) : Prop where
  key : o.given "id" = some r.key
  name : o.given "name" = some r.name
  label : o.given "label" = some r.label
  size : o.given "size" = some r.size
  bytes : o.given "size_bytes" = some r.bytes
  available : o.given "available" = some r.available
  mounted : o.given "mounted" = some r.mounted
  formattable : o.given "formattable" = some r.formattable
  usesStorage : o.given "uses_storage" = some r.usesStorage
  datastore : o.given "datastore" = some r.datastore
  canBePartitioned : o.given "can_be_partitioned" = some r.canBePartitioned
  canCreateLogicalVolume : o.given "can_create_logical_volume" = some r.canCreateLogicalVolume
  canBeDeleted : o.given "can_be_deleted" = some r.canBeDeleted

theorem Report.readsByKey :
    ReadsByKey Report record.fields ["id", "name", "label", "size", "size_bytes", "available",
      "mounted", "formattable", "uses_storage", "datastore", "can_be_partitioned",
      "can_create_logical_volume", "can_be_deleted"] GivenBy := by
  refine record_lawful.readsByKey rfl fun o vs holds => ?_
  obtain ⟨key, name, label, size, bytes, available, mounted, formattable, usesStorage, datastore,
    canBePartitioned, canCreateLogicalVolume, canBeDeleted, -⟩ := holds
  exact ⟨given_of_required key, given_of_required name, given_of_required label,
    given_of_required size, given_of_required bytes, given_of_required available,
    given_of_required mounted, given_of_required formattable, given_of_required usesStorage,
    given_of_required datastore, given_of_required canBePartitioned,
    given_of_required canCreateLogicalVolume, given_of_required canBeDeleted⟩

structure ActionLink.GivenBy (o : ObjectText) (l : ActionLink) : Prop where
  action : o.given "action" = some l.action
  label : o.given "label" = some l.label

theorem ActionLink.readsByKey :
    ReadsByKey ActionLink record.fields ["action", "label"] GivenBy := by
  refine record_lawful.readsByKey rfl fun o vs holds => ?_
  obtain ⟨action, label, -⟩ := holds
  exact ⟨given_of_required action, given_of_required label⟩

structure Row.GivenBy (o : ObjectText) (r : Row) : Prop where
  key : o.given "id" = some r.key
  name : o.given "name" = some r.name
  serial : r.serial = (o.given "serial").getD none
  model : r.model = (o.given "model").getD none
  firmware : r.firmware = (o.given "firmware").getD none
  boot : r.boot = (o.given "boot").getD none
  size : o.given "size" = some r.size
  label : o.given "type_label" = some r.label
  numaNodes : o.given "numa_nodes" = some r.numaNodes
  testStatus : r.testStatus = (o.given "test_status").getD none
  tags : o.given "tags" = some r.tags
  actions : o.given "actions" = some r.actions

theorem Row.readsByKey :
    ReadsByKey Row record.fields ["id", "name", "size", "type_label", "numa_nodes", "tags",
      "actions"] GivenBy := by
  refine record_lawful.readsByKey rfl fun o vs holds => ?_
  obtain ⟨key, name, serial, model, firmware, boot, size, label, numaNodes, testStatus, tags,
    actions, -⟩ := holds
  exact ⟨given_of_required key, given_of_required name, getD_of_defaulted serial,
    getD_of_defaulted model, getD_of_defaulted firmware, getD_of_defaulted boot,
    given_of_required size, given_of_required label, given_of_required numaNodes,
    getD_of_defaulted testStatus, given_of_required tags, given_of_required actions⟩

/-- Every record is read by its keys: what is required, what is given, and what is reported. -/
theorem records_read_by_key :
    ReadsByKey Machine Machine.record.fields ["system_id", "status_code"] Machine.GivenBy ∧
    ReadsByKey Disk Disk.record.fields ["id", "type", "size"] Disk.GivenBy ∧
    ReadsByKey Partition Partition.record.fields ["id", "type", "size"] Partition.GivenBy ∧
    ReadsByKey Filesystem Filesystem.record.fields ["fstype"] Filesystem.GivenBy ∧
    ReadsByKey Parent Parent.record.fields ["id", "type"] Parent.GivenBy ∧
    ReadsByKey SupportedFilesystem SupportedFilesystem.record.fields ["key", "ui"]
      SupportedFilesystem.GivenBy ∧
    ReadsByKey ActionLink ActionLink.record.fields ["action", "label"] ActionLink.GivenBy ∧
    ReadsByKey Report Report.record.fields ["id", "name", "label", "size", "size_bytes",
      "available", "mounted", "formattable", "uses_storage", "datastore", "can_be_partitioned",
      "can_create_logical_volume", "can_be_deleted"] Report.GivenBy ∧
    ReadsByKey Row Row.record.fields ["id", "name", "size", "type_label", "numa_nodes", "tags",
      "actions"] Row.GivenBy ∧
    ReadsByKey Config Config.record.fields [] Config.GivenBy :=
  ⟨Machine.readsByKey, Disk.readsByKey, Partition.readsByKey, Filesystem.readsByKey,
    Parent.readsByKey, SupportedFilesystem.readsByKey, ActionLink.readsByKey, Report.readsByKey,
    Row.readsByKey, Config.readsByKey⟩

/-- A machine after a member that it does not know. -/
def machineObject : ObjectText :=
  .written Spacing.compact_blank 0 [("links", .array [.object []]), ("status_code", .ofInt 4),
    ("system_id", .string "a")]

theorem machineObject_read :
    machineObject.text =
        "\x7b\"links\":[\x7b\x7d],\"status_code\":4,\"system_id\":\"a\"\x7d" ∧
      machineObject.Fits Machine.record.fields ∧
      ∃ m, ofText Machine machineObject.text = .ok m := by
  have links : (Member.written Spacing.compact_blank 0 ("links", .array [.object []])).Fits
      Machine.record.fields := by
    refine ⟨Fields.all_of_notMem (by decide), fun _ => ?_⟩
    exact @IsJson.list [['\x7b', '\x7d']] (by decide) fun s mem => by
      rw [List.mem_singleton.mp mem]
      exact .emptyObject .nil
  have status : (Member.written Spacing.compact_blank 0 ("status_code", .ofInt 4)).Fits
      Machine.record.fields := by
    refine ⟨⟨?_, ?_, ?_, fun _ => ⟨4, LawfulWire.reads_after Spacing.compact_blank 1 4⟩, ?_, ?_,
      trivial⟩, fun unknown => absurd (by decide) unknown⟩
    all_goals exact fun same => absurd same (by decide)
  have system : (Member.written Spacing.compact_blank 0 ("system_id", .string "a")).Fits
      Machine.record.fields := by
    refine ⟨⟨fun _ => ⟨"a", LawfulWire.reads_after Spacing.compact_blank 1 "a"⟩, ?_, ?_, ?_, ?_, ?_,
      trivial⟩, fun unknown => absurd (by decide) unknown⟩
    all_goals exact fun same => absurd same (by decide)
  have fits : machineObject.Fits Machine.record.fields := by
    refine ⟨by unfold Once; decide, fun m mem => ?_⟩
    obtain rfl | rfl | rfl : _ ∨ _ ∨ _ := by simpa [machineObject, ObjectText.written] using mem
    · exact links
    · exact status
    · exact system
  exact ⟨by decide, fits, (records_read_by_key.1.succeeds machineObject fits).mpr (by decide)⟩

end Spindle
