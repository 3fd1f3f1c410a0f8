import Spindle.Proofs.Device.Wire
import Spindle.Proofs.Json.ByKey

/-!
# Snapshots by their keys

What an object gives to each part of a snapshot: a required field has the value under its key, any
other field has that value or its default.
-/

namespace Spindle

open Json Json.Field

structure Filesystem.GivenBy (o : ObjectText) (fs : Filesystem) : Prop where
  fstype : o.given "fstype" = some fs.fstype
  mountPoint : fs.mountPoint = (o.given "mount_point").getD ""
  mountOptions : fs.mountOptions = (o.given "mount_options").getD none
  formattable : fs.formattable = (o.given "is_format_fstype").getD false

theorem Filesystem.readsByKey :
    ReadsByKey Filesystem record.fields ["fstype"] GivenBy := by
  refine record_lawful.readsByKey rfl fun o vs holds => ?_
  obtain ⟨fstype, mountPoint, mountOptions, formattable, -⟩ := holds
  exact ⟨given_of_required fstype, getD_of_defaulted mountPoint, getD_of_defaulted mountOptions,
    getD_of_defaulted formattable⟩

structure Partition.GivenBy (o : ObjectText) (p : Partition) : Prop where
  id : o.given "id" = some p.id
  kind : o.given "type" = some p.kind
  name : p.name = (o.given "name").getD ""
  size : o.given "size" = some p.size
  filesystem : p.filesystem = (o.given "filesystem").getD none
  tags : p.tags = (o.given "tags").getD []
  usedFor : p.usedFor = (o.given "used_for").getD ""

theorem Partition.readsByKey :
    ReadsByKey Partition record.fields ["id", "type", "size"] GivenBy := by
  refine record_lawful.readsByKey rfl fun o vs holds => ?_
  obtain ⟨id, kind, name, size, filesystem, tags, usedFor, -⟩ := holds
  exact ⟨given_of_required id, given_of_required kind, getD_of_defaulted name,
    given_of_required size, getD_of_defaulted filesystem, getD_of_defaulted tags,
    getD_of_defaulted usedFor⟩

structure Parent.GivenBy (o : ObjectText) (p : Parent) : Prop where
  id : o.given "id" = some p.id
  kind : o.given "type" = some p.kind
  uuid : p.uuid = (o.given "uuid").getD ""

theorem Parent.readsByKey :
    ReadsByKey Parent record.fields ["id", "type"] GivenBy := by
  refine record_lawful.readsByKey rfl fun o vs holds => ?_
  obtain ⟨id, kind, uuid, -⟩ := holds
  exact ⟨given_of_required id, given_of_required kind, getD_of_defaulted uuid⟩

structure Disk.GivenBy (o : ObjectText) (d : Disk) : Prop where
  id : o.given "id" = some d.id
  kind : o.given "type" = some d.kind
  name : d.name = (o.given "name").getD ""
  size : o.given "size" = some d.size
  availableSize : d.availableSize = (o.given "available_size").getD 0
  usedSize : d.usedSize = (o.given "used_size").getD 0
  filesystem : d.filesystem = (o.given "filesystem").getD none
  partitions : d.partitions = (o.given "partitions").getD []
  parent : d.parent = (o.given "parent").getD none
  tags : d.tags = (o.given "tags").getD []
  numaNode : d.numaNode = (o.given "numa_node").getD none
  numaNodeList : d.numaNodeList = (o.given "numa_nodes").getD none
  isBoot : d.isBoot = (o.given "is_boot").getD false
  model : d.model = (o.given "model").getD ""
  serial : d.serial = (o.given "serial").getD ""
  firmware : d.firmware = (o.given "firmware_version").getD ""
  testStatus : d.testStatus = (o.given "test_status").getD none

theorem Disk.readsByKey :
    ReadsByKey Disk record.fields ["id", "type", "size"] GivenBy := by
  refine record_lawful.readsByKey rfl fun o vs holds => ?_
  obtain ⟨id, kind, name, size, availableSize, usedSize, filesystem, partitions, parent, tags,
    numaNode, numaNodeList, isBoot, model, serial, firmware, testStatus, -⟩ := holds
  exact ⟨given_of_required id, given_of_required kind, getD_of_defaulted name,
    given_of_required size, getD_of_defaulted availableSize, getD_of_defaulted usedSize,
    getD_of_defaulted filesystem, getD_of_defaulted partitions, getD_of_defaulted parent,
    getD_of_defaulted tags, getD_of_defaulted numaNode, getD_of_defaulted numaNodeList,
    getD_of_defaulted isBoot, getD_of_defaulted model, getD_of_defaulted serial,
    getD_of_defaulted firmware, getD_of_defaulted testStatus⟩

structure SupportedFilesystem.GivenBy (o : ObjectText) (s : SupportedFilesystem) : Prop where
  key : o.given "key" = some s.key
  ui : o.given "ui" = some s.ui

theorem SupportedFilesystem.readsByKey :
    ReadsByKey SupportedFilesystem record.fields ["key", "ui"] GivenBy := by
  refine record_lawful.readsByKey rfl fun o vs holds => ?_
  obtain ⟨key, ui, -⟩ := holds
  exact ⟨given_of_required key, given_of_required ui⟩

structure Machine.GivenBy (o : ObjectText) (m : Machine) : Prop where
  systemId : o.given "system_id" = some m.systemId
  hostname : m.hostname = (o.given "hostname").getD ""
  osystem : m.osystem = (o.given "osystem").getD ""
  statusCode : o.given "status_code" = some m.statusCode
  disks : m.disks = (o.given "disks").getD []
  supportedFilesystems : m.supportedFilesystems = (o.given "supported_filesystems").getD []

theorem Machine.readsByKey :
    ReadsByKey Machine record.fields ["system_id", "status_code"] GivenBy := by
  refine record_lawful.readsByKey rfl fun o vs holds => ?_
  obtain ⟨systemId, hostname, osystem, statusCode, disks, supportedFilesystems, -⟩ := holds
  exact ⟨given_of_required systemId, getD_of_defaulted hostname, getD_of_defaulted osystem,
    given_of_required statusCode, getD_of_defaulted disks, getD_of_defaulted supportedFilesystems⟩

end Spindle
