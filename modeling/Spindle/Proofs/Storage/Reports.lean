import Spindle.Proofs.Storage.Actions

/-!
# Reports

A report never contradicts itself: each of its flags is computed on its own from the device and the
settings, and `report_consistent` has what they imply about each other.
-/

namespace Spindle

/-- The flags of a report agree with each other and with its device. -/
structure Report.Consistent (r : Report) (d : Device) : Prop where
  mounted : r.mounted = true →
    r.available = false ∧ r.canBePartitioned = false ∧ r.canCreateLogicalVolume = false
  available : r.available = true ↔ r.mounted = false ∧ ∀ v, d = .disk v → v.kind ≠ .cacheSet
  canBePartitioned : r.canBePartitioned = true →
    r.available = true ∧ r.mounted = false ∧ r.formattable = false ∧ r.usesStorage = false ∧
      r.datastore = false ∧ r.canCreateLogicalVolume = false
  canCreateLogicalVolume : r.canCreateLogicalVolume = true →
    r.available = true ∧ ∃ v, d = .disk v ∧ v.kind = .volumeGroup
  filesystem : r.mounted = true ∨ r.formattable = true ∨ r.usesStorage = true ∨ r.datastore = true →
    ∃ fs, d.filesystem = some fs
  partition : ∀ p, d = .partition p →
    r.canBePartitioned = false ∧ r.canCreateLogicalVolume = false ∧ r.canBeDeleted = false

theorem exists_of_any {o : Option α} {p : α → Bool} (holds : o.any p = true) : ∃ a, o = some a := by
  cases o with
  | none => cases holds
  | some a => exact ⟨a, rfl⟩

namespace Config

variable (c : Config)

theorem available_iff (d : Device) :
    (c.report d).available = true ↔
      (c.report d).mounted = false ∧ ∀ v, d = .disk v → v.kind ≠ .cacheSet := by
  cases d with
  | disk d =>
    show (!d.isCacheSet && !d.isMounted) = true ↔ d.isMounted = false ∧ _
    simp only [Disk.isCacheSet, Bool.and_eq_true, Bool.not_eq_true', decide_eq_false_iff_not]
    constructor
    · rintro ⟨notCacheSet, unmounted⟩
      exact ⟨unmounted, fun v same => Device.disk.inj same ▸ notCacheSet⟩
    · rintro ⟨unmounted, notCacheSet⟩
      exact ⟨notCacheSet d rfl, unmounted⟩
  | partition p =>
    show (!p.filesystem.any (·.isMounted)) = true ↔ p.filesystem.any (·.isMounted) = false ∧ _
    simp

theorem filesystem_of_canBePartitioned {d : Device}
    (added : (c.report d).canBePartitioned = true) : d.filesystem = none := by
  cases d with
  | disk d =>
    have added : c.canBePartitioned d = true := added
    simp only [canBePartitioned, Bool.and_eq_true] at added
    exact Option.isNone_iff_eq_none.mp added.1.2
  | partition p => cases added

theorem volumeGroup_of_canCreateLogicalVolume {d : Device}
    (created : (c.report d).canCreateLogicalVolume = true) :
    (c.report d).available = true ∧ ∃ v, d = .disk v ∧ v.kind = .volumeGroup := by
  cases d with
  | disk d =>
    have created : c.canCreateLogicalVolume d = true := created
    simp only [canCreateLogicalVolume, Bool.and_eq_true, Bool.not_eq_true'] at created
    obtain ⟨⟨group, unmounted⟩, -⟩ := created
    have group : d.kind = .volumeGroup := by simpa [Disk.isVolumeGroup] using group
    refine ⟨(c.available_iff _).mpr ⟨unmounted, fun v same => ?_⟩, d, rfl, group⟩
    obtain rfl := Device.disk.inj same
    rw [group]
    decide
  | partition p => cases created

theorem available_of_canBePartitioned {d : Device}
    (added : (c.report d).canBePartitioned = true) : (c.report d).available = true := by
  cases d with
  | disk d =>
    have free := c.reportsFree_of_canBePartitioned (d := d) added
    rw [reportsFree, Bool.and_eq_true] at free
    exact free.1
  | partition p => cases added

theorem excludes_logicalVolume {d : Device} (added : (c.report d).canBePartitioned = true) :
    (c.report d).canCreateLogicalVolume = false := by
  cases d with
  | disk d =>
    rw [Bool.eq_false_iff]
    intro created
    have refused := c.not_canBePartitioned_of_canCreateLogicalVolume d created
    exact Bool.false_ne_true (refused.symm.trans added)
  | partition p => rfl

/-- No report contradicts itself, whatever the settings. -/
theorem report_consistent (d : Device) : (c.report d).Consistent d where
  mounted mounted := by
    have unavailable : (c.report d).available = false := by
      rw [Bool.eq_false_iff]
      intro available
      have unmounted := ((c.available_iff d).mp available).1
      exact Bool.false_ne_true (unmounted.symm.trans mounted)
    -- what can be added to is available
    refine ⟨unavailable, Bool.eq_false_iff.mpr fun added => ?_, Bool.eq_false_iff.mpr fun created => ?_⟩
    · exact Bool.false_ne_true (unavailable.symm.trans (c.available_of_canBePartitioned added))
    · exact Bool.false_ne_true
        (unavailable.symm.trans (c.volumeGroup_of_canCreateLogicalVolume created).1)
  available := c.available_iff d
  canBePartitioned added := by
    have empty := c.filesystem_of_canBePartitioned added
    have available := c.available_of_canBePartitioned added
    refine ⟨available, ((c.available_iff d).mp available).1, ?_, ?_, ?_, c.excludes_logicalVolume added⟩
    all_goals simp [report, empty]
  canCreateLogicalVolume := c.volumeGroup_of_canCreateLogicalVolume
  filesystem flagged := by
    obtain mounted | formattable | uses | datastore := flagged
    · exact exists_of_any mounted
    · exact exists_of_any formattable
    · exact exists_of_any uses
    · exact exists_of_any datastore
  partition := by
    rintro p rfl
    exact ⟨rfl, rfl, rfl⟩

end Config

end Spindle
