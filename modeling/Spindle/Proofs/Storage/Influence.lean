import Spindle.Proofs.Storage.Actions

/-!
# The influence of each setting

The free devices of one machine under two settings that differ in one place. The threshold takes away
additions and nothing else, the type of datastores decides only about filesystems of either type, and
the types without storage make no difference.
-/

namespace Spindle

def Action.isAddition : Action → Bool
  | addPartition | addLogicalVolume => true
  | removeVolumeGroup | removeDisk | removePartition | editPartition => false

def ActionLink.isAddition (l : ActionLink) : Bool := l.action.isAddition

/-- The second menu lacks some additions of the first, and is the same otherwise. -/
structure Narrows (menu menu' : List ActionLink) : Prop where
  sublist : menu'.Sublist menu
  others : menu'.filter (!·.isAddition) = menu.filter (!·.isAddition)

/-- The second row is the first, but for additions that it does not offer. -/
structure Row.Narrows (row row' : Row) : Prop where
  columns : row' = { row with actions := row'.actions }
  actions : Spindle.Narrows row.actions row'.actions

namespace Narrows

theorem refl (menu : List ActionLink) : Narrows menu menu := ⟨.refl menu, rfl⟩

theorem append {a a' b b' : List ActionLink} (first : Narrows a a') (second : Narrows b b') :
    Narrows (a ++ b) (a' ++ b') where
  sublist := first.sublist.append second.sublist
  others := by rw [List.filter_append, List.filter_append, first.others, second.others]

/-- An addition that is offered under `p`, and in the second menu under `q` alone. -/
theorem addition {l : ActionLink} (addition : l.isAddition = true) {p q : Bool}
    (stronger : q = true → p = true) :
    Narrows (if p then [l] else []) (if q then [l] else []) := by
  cases q with
  | true =>
    rw [stronger rfl]
    exact refl _
  | false =>
    refine ⟨List.nil_sublist _, ?_⟩
    cases p <;> simp [addition]

end Narrows

namespace Config

variable (c : Config)

/-! ### The threshold -/

section
variable {n : UInt64} (le : c.minPartitionSize ≤ n) (d : Disk)
include le

theorem canBePartitioned_antitone
    (added : { c with minPartitionSize := n }.canBePartitioned d = true) :
    c.canBePartitioned d = true := by
  simp only [canBePartitioned, Bool.and_eq_true, decide_eq_true_eq] at added ⊢
  obtain ⟨kind, room⟩ := added
  exact ⟨kind, UInt64.lt_of_le_of_lt le room⟩

theorem canCreateLogicalVolume_antitone
    (created : { c with minPartitionSize := n }.canCreateLogicalVolume d = true) :
    c.canCreateLogicalVolume d = true := by
  simp only [canCreateLogicalVolume, Bool.and_eq_true, decide_eq_true_eq] at created ⊢
  obtain ⟨kind, room⟩ := created
  exact ⟨kind, UInt64.lt_of_le_of_lt le room⟩

theorem diskActions_narrows :
    Narrows (c.diskActions d) ({ c with minPartitionSize := n }.diskActions d) :=
  ((Narrows.addition rfl (c.canBePartitioned_antitone le d)).append
    (.addition rfl (c.canCreateLogicalVolume_antitone le d))).append (.refl _)

theorem deviceRow?_narrows (d : Device) :
    Option.Rel Row.Narrows (c.deviceRow? d) ({ c with minPartitionSize := n }.deviceRow? d) := by
  rw [deviceRow?_eq, deviceRow?_eq]
  -- whether a device is free does not depend on the threshold
  have same : { c with minPartitionSize := n }.reportsFree d = c.reportsFree d := rfl
  rw [same]
  by_cases free : c.reportsFree d
  · rw [if_pos free, if_pos free]
    cases d with
    | disk d => exact .some ⟨rfl, c.diskActions_narrows le d⟩
    | partition p => exact .some ⟨rfl, .refl _⟩
  · rw [if_neg free, if_neg free]
    exact .none

theorem available_narrows (m : Machine) :
    List.Forall₂ Row.Narrows (c.available m) ({ c with minPartitionSize := n }.available m) := by
  rw [available_eq_filterMap, available_eq_filterMap]
  refine List.rel_filterMap (R := (· = ·)) ?_ (List.forall₂_refl m.devices)
  rintro d _ rfl
  exact c.deviceRow?_narrows le d

end

/-! ### The type of datastores -/

/-- The rows under two settings, device by device: they differ only where a device with a filesystem
of one of the given types has a row under one of them alone. -/
structure DiffersAt (c c' : Config) (m : Machine) (types : List String) : Prop where
  rows : c.available m = m.devices.filterMap c.deviceRow?
  rows' : c'.available m = m.devices.filterMap c'.deviceRow?
  same : ∀ d ∈ m.devices, ∀ row row', c.deviceRow? d = some row → c'.deviceRow? d = some row' →
    row = row'
  only : ∀ d ∈ m.devices, (c.deviceRow? d).isSome ≠ (c'.deviceRow? d).isSome →
    ∃ fs, d.filesystem = some fs ∧ fs.fstype ∈ types

theorem eq_row_of_deviceRow? {c : Config} {d : Device} {row : Row}
    (has : c.deviceRow? d = some row) : row = c.row d := by
  rw [deviceRow?_eq] at has
  split at has
  · exact (Option.some.inj has).symm
  · cases has

theorem isSome_deviceRow? (d : Device) : (c.deviceRow? d).isSome = c.reportsFree d := by
  rw [deviceRow?_eq]
  by_cases free : c.reportsFree d
  · rw [if_pos free, free]
    rfl
  · rw [if_neg free, Bool.eq_false_iff.mpr free]
    rfl

theorem isDatastore_eq_false {fs : Filesystem} (other : fs.fstype ≠ c.datastoreFstype) :
    c.isDatastore fs = false := beq_false_of_ne other

theorem differsAt_datastores (s : String) (m : Machine) :
    c.DiffersAt { c with datastoreFstype := s } m [c.datastoreFstype, s] where
  rows := c.available_eq_filterMap m
  rows' := available_eq_filterMap _ m
  same d _ row row' has has' := by
    -- only whether there is a row depends on the type, not what is in it
    have unread : { c with datastoreFstype := s }.row d = c.row d := rfl
    rw [eq_row_of_deviceRow? has, eq_row_of_deviceRow? has', unread]
  only d _ differ := by
    rw [isSome_deviceRow?, isSome_deviceRow?] at differ
    cases filesystem : d.filesystem with
    | none => simp [reportsFree, report, filesystem] at differ
    | some fs =>
      refine ⟨fs, rfl, Decidable.byContradiction fun neither => differ ?_⟩
      obtain ⟨notFirst, notSecond⟩ : fs.fstype ≠ c.datastoreFstype ∧ fs.fstype ≠ s := by
        simpa using neither
      simp only [reportsFree, report, filesystem, Option.any_some, c.isDatastore_eq_false notFirst,
        isDatastore_eq_false { c with datastoreFstype := s } notSecond]

/-! ### All settings -/

/-- How the free devices depend on each setting. -/
theorem settings_influence (m : Machine) :
    (∀ types, { c with nonStorageFstypes := types }.available m = c.available m) ∧
    (∀ n, c.minPartitionSize ≤ n →
      List.Forall₂ Row.Narrows (c.available m) ({ c with minPartitionSize := n }.available m)) ∧
    ∀ s, c.DiffersAt { c with datastoreFstype := s } m [c.datastoreFstype, s] := by
  refine ⟨fun types => ?_, fun n le => c.available_narrows le m, fun s => c.differsAt_datastores s m⟩
  -- no row is made with a look at these types
  have unread : { c with nonStorageFstypes := types }.deviceRow? = c.deviceRow? := rfl
  rw [available_eq_filterMap, available_eq_filterMap, unread]

/-- A disk with room for a partition beside its datastore. -/
def sharedMachine : Machine where
  systemId := "a"
  hostname := ""
  osystem := ""
  statusCode := 4
  disks := [{ Disk.new 1 .physical 5000000 with
    partitions := [⟨2, .vmfs6, "", 900000, some ⟨"vmfs6", "", none, false⟩, [], ""⟩] }]
  supportedFilesystems := []

theorem sharedMachine_influence :
    List.Forall₂ Row.Narrows (default.available sharedMachine)
        ({ default with minPartitionSize := 5000000 }.available sharedMachine) ∧
      (default.available sharedMachine).map (·.actions.map ActionLink.action) = [[.addPartition]] ∧
      ({ default with minPartitionSize := 5000000 }.available sharedMachine).map Row.actions = [[]] ∧
      (default.available sharedMachine).map Row.key = ["physical-1"] ∧
      ({ default with datastoreFstype := "vmfs5" }.available sharedMachine).map Row.key =
        ["physical-1", "vmfs6-2"] :=
  ⟨(default.settings_influence sharedMachine).2.1 5000000 (by decide), by decide, by decide, by decide,
    by decide⟩

end Config

end Spindle
