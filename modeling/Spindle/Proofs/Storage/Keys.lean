import Spindle.Proofs.Storage.FreeDevices

/-!
# Display keys

The key of a device is its tag, a dash and its number. Some tags hold a dash of their own, but numbers
hold none, so the last dash of a key tells where the number starts.
-/

namespace Spindle

/-- The last `c` of a text divides it in one way only. -/
theorem append_cons_inj {c : Char} {s t u v : List Char} (noneInU : c ∉ u) (noneInV : c ∉ v)
    (same : s ++ c :: u = t ++ c :: v) : s = t ∧ u = v := by
  obtain ⟨w, left, right⟩ | ⟨w, left, right⟩ := List.append_eq_append_iff.mp same
  · cases w with
    | nil => exact ⟨by simpa using left.symm, (List.cons.inj right).2⟩
    | cons d w =>
      obtain ⟨-, inside⟩ := List.cons.inj right
      exact (noneInU (by simp [inside])).elim
  · cases w with
    | nil => exact ⟨by simpa using left, (List.cons.inj right).2.symm⟩
    | cons d w =>
      obtain ⟨-, inside⟩ := List.cons.inj right
      exact (noneInV (by simp [inside])).elim

theorem dash_notMem_toDigits (n : Nat) : '-' ∉ Nat.toDigits 10 n := by
  intro member
  have digit := Nat.isDigit_of_mem_toDigits (by decide) (by decide) member
  cases digit

/-! ### Two devices -/

namespace Device

theorem toList_key (d : Device) :
    d.key.toList = d.tag.toList ++ '-' :: Nat.toDigits 10 d.id.toNat := by
  simp [key, String.toList_append]

theorem key_eq_iff (d e : Device) : d.key = e.key ↔ d.tag = e.tag ∧ d.id = e.id := by
  constructor
  · intro same
    have chars := congrArg String.toList same
    rw [toList_key, toList_key] at chars
    obtain ⟨tags, digits⟩ := append_cons_inj (dash_notMem_toDigits _) (dash_notMem_toDigits _) chars
    have numbers := congrArg (fun digits => Nat.ofDigitChars 10 digits 0) digits
    rw [Nat.ofDigitChars_ten_toDigits, Nat.ofDigitChars_ten_toDigits] at numbers
    exact ⟨String.toList_injective tags, UInt64.toNat_inj.mp numbers⟩
  · rintro ⟨tags, ids⟩
    rw [key, key, tags, ids]

theorem disk_tag_ne_partition_tag (d : Disk) (p : Partition) : (disk d).tag ≠ (partition p).tag := by
  show d.kind.tag ≠ p.kind.tag
  cases d.kind <;> cases p.kind <;> decide

theorem nodup_keys_iff (ds : List Device) :
    (ds.map key).Nodup ↔ ds.Pairwise fun d e => ¬ (d.tag = e.tag ∧ d.id = e.id) := by
  rw [List.Nodup, List.pairwise_map]
  simp only [ne_eq, key_eq_iff]

end Device

/-! ### All devices of a machine -/

namespace Machine

/-- No two disks have a number in common, and no two partitions, be they on one disk or not. -/
structure DistinctIds (m : Machine) : Prop where
  disks : (m.disks.map Disk.id).Nodup
  partitions : ((m.disks.flatMap Disk.partitions).map Partition.id).Nodup

variable {m : Machine} (distinct : m.DistinctIds)
include distinct

theorem DistinctIds.partitions_apart :
    (∀ d ∈ m.disks, (d.partitions.map Partition.id).Nodup) ∧
    m.disks.Pairwise fun d e =>
      ∀ x ∈ d.partitions.map Partition.id, ∀ y ∈ e.partitions.map Partition.id, x ≠ y := by
  have parts := distinct.partitions
  rw [List.map_flatMap, List.Nodup, List.pairwise_flatMap] at parts
  exact parts

theorem DistinctIds.devices_of_disk {d : Disk} (member : d ∈ m.disks) :
    (Device.disk d :: d.partitions.map Device.partition).Pairwise
      fun x y => ¬ (x.tag = y.tag ∧ x.id = y.id) := by
  rw [List.pairwise_cons, List.pairwise_map]
  refine ⟨?_, ?_⟩
  · intro y part
    obtain ⟨p, -, rfl⟩ := List.mem_map.mp part
    exact fun same => Device.disk_tag_ne_partition_tag d p same.1
  · have distinct := List.pairwise_map.mp (distinct.partitions_apart.1 d member)
    exact distinct.imp fun differ same => differ same.2

theorem DistinctIds.devices : m.devices.Pairwise fun x y => ¬ (x.tag = y.tag ∧ x.id = y.id) := by
  have across := (List.pairwise_map.mp distinct.disks).and distinct.partitions_apart.2
  unfold Machine.devices
  rw [List.pairwise_flatMap]
  refine ⟨fun d member => distinct.devices_of_disk member, across.imp ?_⟩
  -- devices of two disks: tags tell a disk from a partition, numbers tell like from like
  rintro d e ⟨disks, partitions⟩ x onD y onE ⟨tags, ids⟩
  obtain rfl | onD := List.mem_cons.mp onD <;> obtain rfl | onE := List.mem_cons.mp onE
  · exact disks ids
  · obtain ⟨q, -, rfl⟩ := List.mem_map.mp onE
    exact Device.disk_tag_ne_partition_tag d q tags
  · obtain ⟨p, -, rfl⟩ := List.mem_map.mp onD
    exact Device.disk_tag_ne_partition_tag e p tags.symm
  · obtain ⟨p, hp, rfl⟩ := List.mem_map.mp onD
    obtain ⟨q, hq, rfl⟩ := List.mem_map.mp onE
    exact partitions _ (List.mem_map_of_mem hp) _ (List.mem_map_of_mem hq) ids

end Machine

theorem Config.map_key_available (c : Config) (m : Machine) :
    (c.available m).map Row.key = (m.devices.filter c.reportsFree).map Device.key := by
  rw [c.available_eq, List.map_map]
  exact List.map_congr_left fun d _ => (c.row_agrees d).key

/-- A key stands for a tag and a number. So the devices of a machine have keys of their own just if no
two of them share tag and number, and then so have the reports and the rows; disks and partitions may
share numbers. -/
theorem keys_identify_devices :
    (∀ d e : Device, d.key = e.key ↔ d.tag = e.tag ∧ d.id = e.id) ∧
    (∀ m : Machine, (m.devices.map Device.key).Nodup ↔
      m.devices.Pairwise fun d e => ¬ (d.tag = e.tag ∧ d.id = e.id)) ∧
    ∀ (c : Config) (m : Machine), m.DistinctIds →
      ((m.devices.map c.report).map Report.key).Nodup ∧ ((c.available m).map Row.key).Nodup := by
  refine ⟨Device.key_eq_iff, fun m => Device.nodup_keys_iff m.devices, fun c m distinct => ?_⟩
  have nodup := (Device.nodup_keys_iff m.devices).mpr distinct.devices
  constructor
  · rw [List.map_map]
    exact nodup
  · rw [c.map_key_available]
    exact nodup.sublist (List.filter_sublist.map _)

/-- A disk and a partition of the same number, and a second disk. -/
def overlappingMachine : Machine where
  systemId := "a"
  hostname := ""
  osystem := ""
  statusCode := 4
  disks := [
    { Disk.new 1 .physical 2000000000 with partitions := [⟨1, .partition, "", 10, none, [], ""⟩] },
    Disk.new 2 .volumeGroup 2000000000]
  supportedFilesystems := []

theorem overlappingMachine_keys :
    overlappingMachine.DistinctIds ∧
    (Config.default.available overlappingMachine).map Row.key =
      ["physical-1", "partition-1", "lvm-vg-2"] ∧
    ((Config.default.available overlappingMachine).map Row.key).Nodup := by
  have distinct : overlappingMachine.DistinctIds := ⟨by decide, by decide⟩
  exact ⟨distinct, by decide, (keys_identify_devices.2.2 .default _ distinct).2⟩

end Spindle
