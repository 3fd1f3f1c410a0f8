import Mathlib.Data.Fintype.EquivFin
import Mathlib.Data.String.Basic
import Spindle.Proofs.Storage.RoundTrip

/-!
# What accepted settings are good for

A check is of use if some record of a snapshot passes it. The checks of filesystems are of use under
all settings. Those that ask for free space are so unless the threshold is the greatest size, which
no free space exceeds, and which is accepted all the same.
-/

namespace Spindle

/-! ### Records of snapshots -/

/-- Some accepted snapshot has the disk. -/
def Disk.InSnapshot (d : Disk) : Prop := ∃ t m, Machine.ofText t = .ok m ∧ d ∈ m.disks

/-- Some accepted snapshot has a device with the filesystem. -/
def Filesystem.InSnapshot (fs : Filesystem) : Prop :=
  ∃ t m, Machine.ofText t = .ok m ∧ ∃ d ∈ m.devices, d.filesystem = some fs

def Machine.ofDisk (d : Disk) : Machine := ⟨"", "", "", 0, [d], []⟩

theorem Disk.inSnapshot (d : Disk) : d.InSnapshot :=
  ⟨_, .ofDisk d, Machine.ofText_write _, List.mem_singleton_self d⟩

/-- A filesystem of this type, mounted nowhere. -/
def Filesystem.ofType (fstype : String) : Filesystem := ⟨fstype, "", none, false⟩

theorem Filesystem.inSnapshot (fs : Filesystem) : fs.InSnapshot :=
  ⟨_, .ofDisk { Disk.new 0 .physical 0 with filesystem := some fs }, Machine.ofText_write _, _,
    List.mem_singleton_self _, rfl⟩

/-! ### Sizes -/

def greatestSize : UInt64 := 18446744073709551615

theorem le_greatestSize (n : UInt64) : n ≤ greatestSize :=
  UInt64.le_iff_toNat_le.mpr (Nat.le_of_lt_succ n.toNat_lt)

theorem lt_greatestSize_iff {n : UInt64} : n < greatestSize ↔ n ≠ greatestSize :=
  ⟨UInt64.ne_of_lt, UInt64.lt_of_le_of_ne (le_greatestSize n)⟩

namespace Config

variable (c : Config)

theorem validate_eq_ok_iff :
    c.validate = .ok c ↔ c.minPartitionSize ≠ 0 ∧ Text.isAllBlank c.datastoreFstype = false := by
  rw [validate]
  split
  · rename_i zero
    exact iff_of_false nofun fun accepted => accepted.1 zero
  · rename_i pos
    split
    · rename_i blank
      exact iff_of_false nofun fun accepted => Bool.false_ne_true (accepted.2.symm.trans blank)
    · rename_i notBlank
      exact iff_of_true rfl ⟨pos, Bool.eq_false_of_not_eq_true notBlank⟩

/-! ### Checks of free space -/

theorem lt_greatestSize_of_canBePartitioned {c : Config} {d : Disk}
    (passes : c.canBePartitioned d = true) : c.minPartitionSize < greatestSize := by
  simp only [canBePartitioned, Bool.and_eq_true, decide_eq_true_eq] at passes
  exact UInt64.lt_of_lt_of_le passes.2 (le_greatestSize _)

theorem lt_greatestSize_of_canCreateLogicalVolume {c : Config} {d : Disk}
    (passes : c.canCreateLogicalVolume d = true) : c.minPartitionSize < greatestSize := by
  simp only [canCreateLogicalVolume, Bool.and_eq_true, decide_eq_true_eq] at passes
  exact UInt64.lt_of_lt_of_le passes.2 (le_greatestSize _)

theorem canBePartitioned_greatest {c : Config} (below : c.minPartitionSize < greatestSize) :
    c.canBePartitioned (.new 0 .physical greatestSize) = true :=
  decide_eq_true below

theorem canCreateLogicalVolume_greatest {c : Config} (below : c.minPartitionSize < greatestSize) :
    c.canCreateLogicalVolume (.new 0 .volumeGroup greatestSize) = true :=
  decide_eq_true below

/-! ### Checks of filesystems -/

theorem exists_fresh (texts : List String) : ∃ s, s ∉ texts := by
  obtain ⟨s, fresh⟩ := Infinite.exists_notMem_finset texts.toFinset
  exact ⟨s, fun member => fresh (List.mem_toFinset.mpr member)⟩

/-- Some filesystems pass the checks of filesystems, and not all are datastores. -/
structure FilesystemsUsable : Prop where
  datastore : ∃ fs : Filesystem, fs.InSnapshot ∧ c.isDatastore fs = true
  notDatastore : ∃ fs : Filesystem, fs.InSnapshot ∧ c.isDatastore fs = false
  usesStorage : ∃ fs : Filesystem, fs.InSnapshot ∧ c.usesStorage fs = true

theorem filesystemsUsable : c.FilesystemsUsable where
  datastore := ⟨.ofType c.datastoreFstype, Filesystem.inSnapshot _, beq_self_eq_true _⟩
  notDatastore := by
    obtain ⟨fstype, fresh⟩ := exists_fresh [c.datastoreFstype]
    exact ⟨.ofType fstype, Filesystem.inSnapshot _,
      beq_eq_false_iff_ne.mpr (mt List.mem_singleton.mpr fresh)⟩
  usesStorage := by
    obtain ⟨fstype, fresh⟩ := exists_fresh c.nonStorageFstypes
    refine ⟨.ofType fstype, Filesystem.inSnapshot _, ?_⟩
    rw [usesStorage, Bool.not_eq_true', List.contains_eq_mem]
    exact decide_eq_false fresh

/-! ### All checks -/

/-- Every check can be passed by a record of some snapshot. -/
structure Usable : Prop extends c.FilesystemsUsable where
  partitions : ∃ d : Disk, d.InSnapshot ∧ c.canBePartitioned d = true
  logicalVolumes : ∃ d : Disk, d.InSnapshot ∧ d.kind = .volumeGroup ∧
    c.canCreateLogicalVolume d = true

/-- Settings are accepted that have a threshold and a datastore type. They leave every check usable
unless the threshold is the greatest size; then no disk has room for a partition or a logical volume,
and the checks of filesystems alone are left. -/
theorem usable_iff :
    (c.validate = .ok c ↔ c.minPartitionSize ≠ 0 ∧ Text.isAllBlank c.datastoreFstype = false) ∧
    (c.Usable ↔ c.minPartitionSize ≠ greatestSize) ∧
    c.FilesystemsUsable ∧
    (c.minPartitionSize = greatestSize →
      ∀ d, c.canBePartitioned d = false ∧ c.canCreateLogicalVolume d = false) := by
  refine ⟨c.validate_eq_ok_iff, ?_, c.filesystemsUsable, fun greatest d => ?_⟩
  · rw [← lt_greatestSize_iff]
    constructor
    · intro usable
      obtain ⟨d, -, passes⟩ := usable.partitions
      exact lt_greatestSize_of_canBePartitioned passes
    · intro below
      exact ⟨c.filesystemsUsable, ⟨_, Disk.inSnapshot _, canBePartitioned_greatest below⟩,
        ⟨_, Disk.inSnapshot _, rfl, canCreateLogicalVolume_greatest below⟩⟩
  · have notBelow : ¬ c.minPartitionSize < greatestSize := fun below =>
      lt_greatestSize_iff.mp below greatest
    exact ⟨Bool.eq_false_of_not_eq_true fun passes =>
        notBelow (lt_greatestSize_of_canBePartitioned passes),
      Bool.eq_false_of_not_eq_true fun passes =>
        notBelow (lt_greatestSize_of_canCreateLogicalVolume passes)⟩

/-- The default settings, but with the greatest size as the threshold. -/
def greatestThreshold : Config := { Config.default with minPartitionSize := greatestSize }

theorem greatestThreshold_refuses :
    greatestThreshold.minPartitionSize = greatestSize ∧
      ∀ d, greatestThreshold.canBePartitioned d = false ∧
        greatestThreshold.canCreateLogicalVolume d = false :=
  ⟨rfl, (usable_iff greatestThreshold).2.2.2 rfl⟩

theorem greatestThreshold_accepted :
    greatestThreshold.validate = .ok greatestThreshold ∧ ¬ greatestThreshold.Usable := by
  refine ⟨by decide, fun usable => ?_⟩
  obtain ⟨d, -, passes⟩ := usable.partitions
  exact lt_greatestSize_iff.mp (lt_greatestSize_of_canBePartitioned passes) rfl

end Config

end Spindle
