import Spindle.Error
import Spindle.Proofs.Device.ByKey
import Spindle.Proofs.Json.ListMember

/-!
# One bad record rejects the snapshot

The disks of a machine and the partitions of a disk are read one by one. The first that is not in
order rejects the whole snapshot, with its own fault.
-/

namespace Spindle

open Json

instance : ListItem Partition := Partition.record_lawful.listItem

instance : ListItem Disk := Disk.record_lawful.listItem

theorem disk_readsItems :
    ReadsItems Partition Disk.record.fields "partitions" Disk.partitions (Json.ofText Disk) id :=
  Disk.record_lawful.readsItems rfl Disk.readsByKey fun _ _ given => given.partitions

theorem Machine.ofText_eq (text : String) :
    ofText text = (Json.ofText Machine text).mapError .snapshotParse := by
  rw [ofText]
  cases Json.ofText Machine text <;> rfl

theorem Machine.ofText_eq_ok {text : String} {m : Machine} :
    ofText text = .ok m ↔ (Wire.reader : Reader Machine).whole text.toList = .ok m := by
  rw [Machine.ofText_eq, Json.ofText]
  cases (Wire.reader : Reader Machine).whole text.toList <;> simp [Except.mapError]

theorem machine_readsItems :
    ReadsItems Disk Machine.record.fields "disks" Machine.disks Machine.ofText .snapshotParse := by
  have items :
      ReadsItems Disk Machine.record.fields "disks" Machine.disks (Json.ofText Machine) id :=
    Machine.record_lawful.readsItems rfl Machine.readsByKey fun _ _ given => given.disks
  constructor
  · intro site valid ds vs reads
    obtain ⟨m, read, same⟩ := items.accepts site valid ds vs reads
    exact ⟨m, by rw [Machine.ofText_eq, read]; rfl, same⟩
  · intro site valid ds d e first others
    rw [Machine.ofText_eq, items.rejects site valid ds d e first others]
    rfl
  · intro site valid ds d e first rest delimits
    rw [Machine.ofText_eq, items.unread site valid ds d e first rest delimits]
    rfl

/-- A snapshot has the disks that its texts spell, in their order, and a disk its partitions; the
first of them with a fault rejects the whole with that fault, and so does the first partition with
a fault in the first such disk. -/
theorem snapshot_read_by_item :
    ReadsItems Disk Machine.record.fields "disks" Machine.disks Machine.ofText .snapshotParse ∧
    ReadsItems Partition Disk.record.fields "partitions" Disk.partitions (Json.ofText Disk) id ∧
    ∀ machine : ListSite, machine.Valid Machine.record.fields "disks" →
      ∀ disk : ListSite, disk.Valid Disk.record.fields "partitions" →
      ∀ ds : List String, (∀ d ∈ ds, ∃ v, Json.ofText Disk d = .ok v) →
      ∀ ps p e, FirstFault Partition ps p e → ∀ laterPartitions laterDisks,
        Machine.ofText
            (machine.text (ds ++ disk.text (ps ++ p :: laterPartitions) :: laterDisks)) =
          .error (.snapshotParse e) := by
  refine ⟨machine_readsItems, disk_readsItems, ?_⟩
  intro machine machine_valid disk disk_valid ds earlier ps p e first laterPartitions laterDisks
  have nested := first.nested disk_readsItems disk_valid laterPartitions earlier
  exact machine_readsItems.rejects machine machine_valid ds _ e nested laterDisks

/-! ### A machine with room for disks -/

def machineSite : ListSite :=
  .compact [("system_id", .string "x")] "disks" [("status_code", .ofInt 4)]

def diskSite : ListSite :=
  .compact [("id", .ofInt 1), ("type", .string "physical")] "partitions" [("size", .ofInt 5)]

theorem machineSite_valid : machineSite.Valid Machine.record.fields "disks" where
  key := rfl
  fits := by
    refine ⟨by unfold Once; decide, fun m mem => ?_⟩
    have nodup := Machine.record_lawful.nodup
    obtain rfl | rfl | rfl : _ ∨ _ ∨ _ := by
      simpa [machineSite, ListSite.compact, ListSite.object] using mem
    · exact .written nodup "system_id" rfl rfl "x"
    · exact .of_find? nodup "disks" rfl rfl (ListSite.whole_member (α := Disk) .nil)
    · exact .written nodup "status_code" rfl rfl (4 : UInt32)
  present := by decide

theorem diskSite_valid : diskSite.Valid Disk.record.fields "partitions" where
  key := rfl
  fits := by
    refine ⟨by unfold Once; decide, fun m mem => ?_⟩
    have nodup := Disk.record_lawful.nodup
    obtain rfl | rfl | rfl | rfl : _ ∨ _ ∨ _ ∨ _ := by
      simpa [diskSite, ListSite.compact, ListSite.object] using mem
    · exact .written nodup "id" rfl rfl (1 : UInt64)
    · exact .written nodup "type" rfl rfl DiskKind.physical
    · exact .of_find? nodup "partitions" rfl rfl
        (ListSite.whole_member (α := Partition) .nil)
    · exact .written nodup "size" rfl rfl (5 : UInt64)
  present := by decide

def plainDisk : String := "\x7b\"id\":1,\"type\":\"physical\",\"size\":5\x7d"

def floppyDisk : String := "\x7b\"id\":2,\"type\":\"floppy\",\"size\":5\x7d"

theorem plainDisk_read : Json.ofText Disk plainDisk =
    .ok { Disk.new 1 .physical 5 with availableSize := 0 } := by decide +kernel

theorem floppyDisk_first : FirstFault Disk [plainDisk] floppyDisk
    (.unknownTag "floppy" ["physical", "virtual", "lvm-vg", "cache-set", "iscsi"]) where
  earlier := by
    intro d mem
    rw [List.mem_singleton.mp mem]
    exact ⟨_, plainDisk_read⟩
  fault := by decide +kernel
  notEnd := by decide
  notClose := by decide

theorem emptyPartition_first : FirstFault Partition [] "\x7b\x7d" (.missingField "id") where
  earlier := nofun
  fault := Partition.record_lawful.ofText_of_missing
    (o := .written Spacing.compact_blank 0 []) ⟨by unfold Once; decide, nofun⟩ rfl
  notEnd := by decide
  notClose := by decide

theorem machineSite_read :
    (∃ m, Machine.ofText (machineSite.text [plainDisk]) = .ok m ∧
      m.disks = [{ Disk.new 1 .physical 5 with availableSize := 0 }]) ∧
    Machine.ofText (machineSite.text [plainDisk, floppyDisk, "nothing"]) =
      .error (.snapshotParse
        (.unknownTag "floppy" ["physical", "virtual", "lvm-vg", "cache-set", "iscsi"])) ∧
    Machine.ofText (machineSite.textTo [plainDisk, floppyDisk] ++ " and so on") =
      .error (.snapshotParse
        (.unknownTag "floppy" ["physical", "virtual", "lvm-vg", "cache-set", "iscsi"])) ∧
    (∃ d, Json.ofText Disk (diskSite.text []) = .ok d ∧ d.partitions = []) ∧
    Machine.ofText (machineSite.text [plainDisk, diskSite.text ["\x7b\x7d", "]"], floppyDisk]) =
      .error (.snapshotParse (.missingField "id")) := by
  obtain ⟨disks, partitions, nested⟩ := snapshot_read_by_item
  refine ⟨?_, ?_, ?_, ?_, ?_⟩
  · exact disks.accepts machineSite machineSite_valid [plainDisk] _ (.cons plainDisk_read .nil)
  · exact disks.rejects machineSite machineSite_valid [plainDisk] floppyDisk _ floppyDisk_first
      ["nothing"]
  · exact disks.unread machineSite machineSite_valid [plainDisk] floppyDisk _ floppyDisk_first
      " and so on" (.cons rfl _)
  · exact partitions.accepts diskSite diskSite_valid [] [] .nil
  · exact nested machineSite machineSite_valid diskSite diskSite_valid [plainDisk]
      floppyDisk_first.earlier [] "\x7b\x7d" _ emptyPartition_first ["]"] [floppyDisk]

/-- A text that starts with `]` is no disk, but in the list of disks it ends the list, and the
fault is another one. -/
theorem closing_text_ends_disks :
    machineSite.Valid Machine.record.fields "disks" ∧
    machineSite.text ["]"] = "\x7b\"system_id\":\"x\",\"disks\":[]],\"status_code\":4\x7d" ∧
    Json.ofText Disk "]" = .error .expectedValue ∧
    ¬ Error.AboutEnd .expectedValue ∧
    Machine.ofText (machineSite.text ["]"]) = .error (.snapshotParse .expectedObjectEnd) ∧
    Machine.ofText (machineSite.text ["]"]) ≠ .error (.snapshotParse .expectedValue) := by
  have fault : Machine.ofText (machineSite.text ["]"]) =
      .error (.snapshotParse .expectedObjectEnd) := by decide +kernel
  refine ⟨machineSite_valid, by decide, rfl, by decide, fault, ?_⟩
  rw [fault]
  decide

end Spindle
