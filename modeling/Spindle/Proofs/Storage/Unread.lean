import Spindle.Proofs.Storage.Actions

/-!
# Fields that make no difference

A machine is stripped of all that its reports and free devices must not depend on, and still has the
same ones. So two machines that differ in such fields alone cannot be told apart by them.
-/

namespace Spindle

/-! ### What is left of a machine -/

/-- Whether it is mounted is left of where it is, and nothing of how. -/
def Filesystem.bare (fs : Filesystem) : Filesystem :=
  { fs with
    mountPoint := if fs.mountPoint ≠ "" ∧ fs.mountPoint ≠ "RESERVED" then "/" else ""
    mountOptions := none }

def Partition.bare (p : Partition) : Partition :=
  { p with
    filesystem := p.filesystem.map Filesystem.bare
    usedFor := "" }

def Parent.bare (p : Parent) : Parent := { p with id := 0, uuid := "" }

/-- Only a virtual disk keeps the type of its parent, only a volume group the space in use. -/
def Disk.bare (d : Disk) : Disk :=
  { d with
    usedSize := if d.kind = .volumeGroup then d.usedSize else 0
    filesystem := d.filesystem.map Filesystem.bare
    partitions := d.partitions.map Partition.bare
    parent := if d.kind = .virtual then d.parent.map Parent.bare else none }

def Device.bare : Device → Device
  | disk d => disk d.bare
  | partition p => partition p.bare

/-- The machine without the fields that make no difference. -/
def Machine.bare (m : Machine) : Machine where
  systemId := ""
  hostname := ""
  osystem := ""
  statusCode := 0
  disks := m.disks.map Disk.bare
  supportedFilesystems := []

theorem Machine.devices_bare (m : Machine) : m.bare.devices = m.devices.map Device.bare := by
  unfold devices bare
  rw [List.flatMap_map, List.map_flatMap]
  refine congrArg (List.flatMap · m.disks) (funext fun d => ?_)
  rw [List.map_cons, List.map_map]
  show _ :: (d.partitions.map Partition.bare).map Device.partition = _
  rw [List.map_map]
  rfl

/-! ### What the checks read -/

theorem Filesystem.isMounted_bare (fs : Filesystem) : fs.bare.isMounted = fs.isMounted := by
  unfold isMounted isReserved reservedMountPoint bare
  by_cases mounted : fs.mountPoint ≠ "" ∧ fs.mountPoint ≠ "RESERVED"
  · simp [mounted]
  · rw [if_neg mounted]
    obtain unmounted | reserved := not_and_or.mp mounted
    · simp [not_not.mp unmounted]
    · simp [not_not.mp reserved]

theorem Filesystem.any_bare {p : Filesystem → Bool} (same : ∀ fs : Filesystem, p fs.bare = p fs)
    (fs : Option Filesystem) : (fs.map Filesystem.bare).any p = fs.any p := by
  cases fs with
  | none => rfl
  | some fs => exact same fs

namespace Disk

section
variable {d d' : Disk} (logical : d.logicalKind = d'.logicalKind) (kind : d.kind = d'.kind)
include logical kind

theorem label_congr : d.label = d'.label := by rw [label, label, kind, logical]

theorem phrase_congr : d.phrase = d'.phrase := by rw [phrase, phrase, kind, logical]

theorem isPartitionable_congr : d.isPartitionable = d'.isPartitionable := by
  rw [isPartitionable, isPartitionable, kind, logical]

end

variable (d : Disk)

theorem logicalKind_bare : d.bare.logicalKind = d.logicalKind := by
  unfold logicalKind bare
  by_cases built : d.kind = .virtual
  · rw [if_pos built, if_pos built, if_pos built, Option.map_map]
    rfl
  · rw [if_neg built, if_neg built]

theorem isMounted_bare : d.bare.isMounted = d.isMounted :=
  Filesystem.any_bare Filesystem.isMounted_bare d.filesystem

theorem isAvailable_bare : d.bare.isAvailable = d.isAvailable := by
  rw [isAvailable, isAvailable, isMounted_bare]
  rfl

theorem canBeDeleted_bare : d.bare.canBeDeleted = d.canBeDeleted := by
  unfold canBeDeleted isVolumeGroup bare
  by_cases group : d.kind = .volumeGroup <;> simp [group]

end Disk

theorem Partition.isAvailable_bare (p : Partition) : p.bare.isAvailable = p.isAvailable :=
  congrArg Bool.not (Filesystem.any_bare Filesystem.isMounted_bare p.filesystem)

namespace Config

variable (c : Config)

theorem canBePartitioned_bare (d : Disk) : c.canBePartitioned d.bare = c.canBePartitioned d := by
  have kind : d.bare.isPartitionable = d.isPartitionable :=
    Disk.isPartitionable_congr d.logicalKind_bare rfl
  have empty : d.bare.filesystem.isNone = d.filesystem.isNone := Option.isNone_map
  rw [canBePartitioned, canBePartitioned, kind, empty]
  rfl

theorem canCreateLogicalVolume_bare (d : Disk) :
    c.canCreateLogicalVolume d.bare = c.canCreateLogicalVolume d := by
  rw [canCreateLogicalVolume, canCreateLogicalVolume, Disk.isMounted_bare]
  rfl

theorem diskActions_bare (d : Disk) : c.diskActions d.bare = c.diskActions d := by
  have phrase : d.bare.phrase = d.phrase := Disk.phrase_congr d.logicalKind_bare rfl
  rw [diskActions, diskActions, canBePartitioned_bare, canCreateLogicalVolume_bare,
    Disk.canBeDeleted_bare, phrase]
  rfl

/-! ### Reports and rows -/

theorem report_bare (d : Device) : c.report d.bare = c.report d := by
  have filesystem : d.bare.filesystem = d.filesystem.map Filesystem.bare := by cases d <;> rfl
  have mounted := Filesystem.any_bare Filesystem.isMounted_bare d.filesystem
  have formattable := Filesystem.any_bare (p := (·.formattable)) (fun _ => rfl) d.filesystem
  have uses := Filesystem.any_bare (p := c.usesStorage) (fun _ => rfl) d.filesystem
  have datastore := Filesystem.any_bare (p := c.isDatastore) (fun _ => rfl) d.filesystem
  cases d with
  | disk d =>
    have label : d.bare.label = d.label := Disk.label_congr d.logicalKind_bare rfl
    simp only [report, filesystem, mounted, formattable, uses, datastore]
    simp only [Device.bare, Device.label, label, Device.isAvailable, Disk.isAvailable_bare,
      canBePartitioned_bare, canCreateLogicalVolume_bare, Disk.canBeDeleted_bare]
    rfl
  | partition p =>
    simp only [report, filesystem, mounted, formattable, uses, datastore]
    simp only [Device.bare, Device.isAvailable, Partition.isAvailable_bare]
    rfl

theorem row_bare (d : Device) : c.row d.bare = c.row d := by
  cases d with
  | disk d =>
    have label : d.bare.label = d.label := Disk.label_congr d.logicalKind_bare rfl
    simp only [Device.bare, row, Row.ofDisk, label, diskActions_bare]
    rfl
  | partition p => rfl

theorem deviceRow?_bare (d : Device) : c.deviceRow? d.bare = c.deviceRow? d := by
  rw [deviceRow?_eq, deviceRow?_eq, row_bare, reportsFree, reportsFree, report_bare]

end Config

namespace Machine

theorem reports_bare (m : Machine) (c : Config) :
    m.bare.devices.map c.report = m.devices.map c.report := by
  rw [devices_bare, List.map_map]
  exact List.map_congr_left fun d _ => c.report_bare d

theorem available_bare (m : Machine) (c : Config) : c.available m.bare = c.available m := by
  rw [c.available_eq_filterMap, c.available_eq_filterMap, devices_bare, List.filterMap_map]
  exact List.filterMap_congr fun d _ => c.deviceRow?_bare d

/-- Two machines that differ in fields that make no difference alone have the same reports and the
same free devices under all settings. -/
theorem unread_fields {m m' : Machine} (same : m.bare = m'.bare) (c : Config) :
    m.devices.map c.report = m'.devices.map c.report ∧ c.available m = c.available m' := by
  constructor
  · rw [← m.reports_bare, ← m'.reports_bare, same]
  · rw [← m.available_bare, ← m'.available_bare, same]

/-- A machine with a partitioned disk and a RAID. -/
def mirrored : Machine where
  systemId := "n"
  hostname := "a"
  osystem := "ubuntu"
  statusCode := 4
  disks := [
    { Disk.new 1 .physical 5000000000 with
      partitions := [⟨2, .partition, "sda1", 1000, some ⟨"ext4", "/", none, true⟩, [], "system"⟩] },
    { Disk.new 3 .virtual 5000000000 with parent := some ⟨1, .raid .one, ""⟩ }]
  supportedFilesystems := []

/-- The same devices, with other values in fields that make no difference. -/
def mirroredElsewhere : Machine where
  systemId := "o"
  hostname := ""
  osystem := ""
  statusCode := 6
  disks := [
    { Disk.new 1 .physical 5000000000 with
      usedSize := 1000
      parent := some ⟨4, .bcache, "x"⟩
      partitions := [⟨2, .partition, "sda1", 1000, some ⟨"ext4", "/srv", some "ro", true⟩, [], ""⟩] },
    { Disk.new 3 .virtual 5000000000 with parent := some ⟨2, .raid .one, "y"⟩ }]
  supportedFilesystems := [⟨"ext4", "ext4"⟩]

theorem mirrored_unread :
    mirrored ≠ mirroredElsewhere ∧
    mirrored.devices.map Config.default.report =
      mirroredElsewhere.devices.map Config.default.report ∧
    Config.default.available mirrored = Config.default.available mirroredElsewhere :=
  ⟨by decide, unread_fields (by decide) Config.default⟩

end Machine

end Spindle
