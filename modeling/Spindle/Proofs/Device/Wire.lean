import Spindle.Device.Wire
import Spindle.Proofs.Json.RecordRoundTrip

/-!
# Snapshots are read back

Every part of a snapshot is written so that it is read as itself.
-/

namespace Spindle

open Json

instance : LawfulWire DiskKind := Tags.lawfulWire fun k => by cases k <;> rfl

instance : LawfulWire PartitionKind := Tags.lawfulWire fun k => by cases k <;> rfl

instance : LawfulWire RaidLevel := Tags.lawfulWire fun l => by cases l <;> rfl

theorem GroupKind.ofTag_tag (k : GroupKind) : tags.ofTag k.tag = .ok k := by
  cases k with
  | raid level => cases level <;> rfl
  | volumeGroup | bcache | unknown => rfl

instance : LawfulWire GroupKind := Tags.lawfulWire GroupKind.ofTag_tag

instance : NonNull Filesystem := Record.nonNull

theorem Filesystem.record_lawful : record.Lawful where
  fields := ⟨.required _, .defaulted _ _, .defaulted _ _, .defaulted _ _, trivial⟩
  nodup := by decide
  built _ := rfl

instance : LawfulWire Filesystem := Filesystem.record_lawful.wire

theorem Partition.record_lawful : record.Lawful where
  fields :=
    ⟨.required _, .required _, .defaulted _ _, .required _, .defaulted _ _, .defaulted _ _,
      .defaulted _ _, trivial⟩
  nodup := by decide
  built _ := rfl

instance : LawfulWire Partition := Partition.record_lawful.wire

instance : NonNull Parent := Record.nonNull

theorem Parent.record_lawful : record.Lawful where
  fields := ⟨.required _, .required _, .defaulted _ _, trivial⟩
  nodup := by decide
  built _ := rfl

instance : LawfulWire Parent := Parent.record_lawful.wire

theorem Disk.record_lawful : record.Lawful where
  fields :=
    ⟨.required _, .required _, .defaulted _ _, .required _, .defaulted _ _, .defaulted _ _,
      .defaulted _ _, .defaulted _ _, .defaulted _ _, .defaulted _ _, .defaulted _ _,
      .defaulted _ _, .defaulted _ _, .defaulted _ _, .defaulted _ _, .defaulted _ _,
      .defaulted _ _, trivial⟩
  nodup := by decide
  built _ := rfl

instance : LawfulWire Disk := Disk.record_lawful.wire

theorem SupportedFilesystem.record_lawful : record.Lawful where
  fields := ⟨.required _, .required _, trivial⟩
  nodup := by decide
  built _ := rfl

instance : LawfulWire SupportedFilesystem := SupportedFilesystem.record_lawful.wire

theorem Machine.record_lawful : record.Lawful where
  fields :=
    ⟨.required _, .defaulted _ _, .defaulted _ _, .required _, .defaulted _ _, .defaulted _ _,
      trivial⟩
  nodup := by decide
  built _ := rfl

instance : LawfulWire Machine := Machine.record_lawful.wire

end Spindle
