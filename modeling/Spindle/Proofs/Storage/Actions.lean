import Spindle.Proofs.Storage.FreeDevices

/-!
# Offered actions

The menu of a disk against its report: `map_action_diskActions` shows that the menu is what the report
allows, in a fixed order. A disk to which something can be added is free, so its row offers that.
-/

namespace Spindle

namespace Action

/-- Every action, in the order of a menu. -/
def menu : List Action :=
  [addPartition, addLogicalVolume, removeVolumeGroup, removeDisk, removePartition, editPartition]

def isRemoval : Action → Bool
  | removeVolumeGroup | removeDisk | removePartition => true
  | addPartition | addLogicalVolume | editPartition => false

theorem nodup_menu : menu.Nodup := by decide

theorem mem_menu (a : Action) : a ∈ menu := by cases a <;> decide

end Action

def ActionLink.removeVolumeGroup : ActionLink := ⟨.removeVolumeGroup, "Remove volume group..."⟩

def ActionLink.removeDisk (d : Disk) : ActionLink :=
  ⟨.removeDisk, "Remove " ++ (Device.disk d).phrase ++ "..."⟩

def Row.Offers (row : Row) (a : Action) : Prop := a ∈ row.actions.map ActionLink.action

/-! ### Menus -/

namespace Config

variable (c : Config) (d : Disk)

/-- Which actions the report of a disk allows. -/
def allows : Action → Bool
  | .addPartition => (c.report (.disk d)).canBePartitioned
  | .addLogicalVolume => (c.report (.disk d)).canCreateLogicalVolume
  | .removeVolumeGroup => (c.report (.disk d)).canBeDeleted && d.isVolumeGroup
  | .removeDisk => (c.report (.disk d)).canBeDeleted && !d.isVolumeGroup
  | .removePartition | .editPartition => false

theorem map_action_diskActions :
    (c.diskActions d).map ActionLink.action = Action.menu.filter (c.allows d) := by
  unfold diskActions Action.menu
  cases partitioned : c.canBePartitioned d <;> cases created : c.canCreateLogicalVolume d <;>
    cases deleted : d.canBeDeleted <;> cases group : d.isVolumeGroup <;>
    simp [allows, report, partitioned, created, deleted, group]

theorem mem_actions_iff (a : Action) :
    a ∈ (c.diskActions d).map ActionLink.action ↔ c.allows d a = true := by
  rw [map_action_diskActions, List.mem_filter]
  exact and_iff_right a.mem_menu

theorem removal_mem_diskActions {l : ActionLink} (member : l ∈ c.diskActions d)
    (removal : l.action.isRemoval = true) :
    l = if d.isVolumeGroup then .removeVolumeGroup else .removeDisk d := by
  simp only [diskActions, List.mem_append] at member
  obtain (member | member) | member := member
  · split at member
    · obtain rfl := List.mem_singleton.mp member
      cases removal
    · cases member
  · split at member
    · obtain rfl := List.mem_singleton.mp member
      cases removal
    · cases member
  · split at member
    · split at member <;> rename_i group
      · rw [if_pos group]
        exact List.mem_singleton.mp member
      · rw [if_neg group]
        exact List.mem_singleton.mp member
    · cases member

/-- Only a volume group has room for a logical volume, and no partition can be added to one. -/
theorem not_canBePartitioned_of_canCreateLogicalVolume (created : c.canCreateLogicalVolume d = true) :
    c.canBePartitioned d = false := by
  have group : d.kind = .volumeGroup := by
    simp only [canCreateLogicalVolume, Bool.and_eq_true] at created
    simpa [Disk.isVolumeGroup] using created.1.1
  simp [canBePartitioned, Disk.isPartitionable, group]

/-- What the menu of a disk has to do with its report. -/
structure MenuMatches : Prop where
  addPartition : .addPartition ∈ (c.diskActions d).map ActionLink.action ↔
    (c.report (.disk d)).canBePartitioned = true
  addLogicalVolume : .addLogicalVolume ∈ (c.diskActions d).map ActionLink.action ↔
    (c.report (.disk d)).canCreateLogicalVolume = true
  removal : (∃ l ∈ c.diskActions d, l.action.isRemoval = true) ↔
    (c.report (.disk d)).canBeDeleted = true
  removeVolumeGroup : ∀ l ∈ c.diskActions d, l.action.isRemoval = true →
    (l.action = .removeVolumeGroup ↔ d.kind = .volumeGroup)
  removeDisk : ∀ l ∈ c.diskActions d, l.action.isRemoval = true → d.kind ≠ .volumeGroup →
    l = .removeDisk d
  inOrder : ((c.diskActions d).map ActionLink.action).Sublist Action.menu
  nodup : ((c.diskActions d).map ActionLink.action).Nodup
  exclusive : ¬ (.addPartition ∈ (c.diskActions d).map ActionLink.action ∧
    .addLogicalVolume ∈ (c.diskActions d).map ActionLink.action)

theorem menuMatches : c.MenuMatches d where
  addPartition := c.mem_actions_iff d _
  addLogicalVolume := c.mem_actions_iff d _
  removal := by
    constructor
    · rintro ⟨l, member, removal⟩
      have allowed := (c.mem_actions_iff d l.action).mp (List.mem_map_of_mem member)
      cases action : l.action <;> simp_all [allows, Action.isRemoval]
    · intro deleted
      cases group : d.isVolumeGroup
      · have offered := (c.mem_actions_iff d .removeDisk).mpr (by simp [allows, deleted, group])
        obtain ⟨l, member, action⟩ := List.mem_map.mp offered
        exact ⟨l, member, by rw [action]; rfl⟩
      · have offered := (c.mem_actions_iff d .removeVolumeGroup).mpr (by simp [allows, deleted, group])
        obtain ⟨l, member, action⟩ := List.mem_map.mp offered
        exact ⟨l, member, by rw [action]; rfl⟩
  removeVolumeGroup l member removal := by
    rw [c.removal_mem_diskActions d member removal]
    by_cases group : d.kind = .volumeGroup <;>
      simp [Disk.isVolumeGroup, group, ActionLink.removeVolumeGroup, ActionLink.removeDisk]
  removeDisk l member removal other := by
    rw [c.removal_mem_diskActions d member removal]
    simp [Disk.isVolumeGroup, other]
  inOrder := by
    rw [map_action_diskActions]
    exact List.filter_sublist
  nodup := by
    rw [map_action_diskActions]
    exact Action.nodup_menu.filter _
  exclusive := by
    rintro ⟨added, created⟩
    rw [mem_actions_iff] at added created
    have refused := c.not_canBePartitioned_of_canCreateLogicalVolume d created
    exact Bool.false_ne_true (refused.symm.trans added)

end Config

/-! ### Rows -/

def Device.isCacheSet : Device → Bool
  | .disk d => d.isCacheSet
  | .partition _ => false

namespace Config

variable (c : Config)

/-- The row of a device, if it has one. -/
def deviceRow? : Device → Option Row
  | .disk d => c.diskRow? d
  | .partition p => c.partitionRow? p

theorem deviceRow?_eq (d : Device) :
    c.deviceRow? d = if c.reportsFree d then some (c.row d) else none := by
  cases d with
  | disk d => exact c.diskRow?_eq d
  | partition p => exact c.partitionRow?_eq p

theorem available_eq_filterMap (m : Machine) :
    c.available m = m.devices.filterMap c.deviceRow? := by
  rw [available_eq, ← List.filterMap_eq_map, List.filterMap_filter]
  exact congrArg (List.filterMap · m.devices) (funext fun d => (c.deviceRow?_eq d).symm)

theorem reportsFree_of_canBePartitioned {d : Disk} (added : c.canBePartitioned d = true) :
    c.reportsFree (.disk d) = true := by
  simp only [canBePartitioned, Bool.and_eq_true] at added
  obtain ⟨⟨kind, empty⟩, -⟩ := added
  have empty : d.filesystem = none := by simpa using empty
  have notCacheSet : d.isCacheSet = false := by
    unfold Disk.isPartitionable at kind
    cases same : d.kind <;> simp_all [Disk.isCacheSet]
  simp [reportsFree, report, Device.isAvailable, Device.filesystem, Disk.isAvailable,
    Disk.isMounted, empty, notCacheSet]

theorem reportsFree_of_canCreateLogicalVolume {d : Disk} (created : c.canCreateLogicalVolume d = true)
    (other : (c.report (.disk d)).datastore = false) : c.reportsFree (.disk d) = true := by
  simp only [canCreateLogicalVolume, Bool.and_eq_true, Bool.not_eq_true'] at created
  obtain ⟨⟨group, unmounted⟩, -⟩ := created
  have notCacheSet : d.isCacheSet = false := by
    simp_all [Disk.isVolumeGroup, Disk.isCacheSet]
  have available : (c.report (.disk d)).available = true := by
    show d.isAvailable = true
    simp [Disk.isAvailable, notCacheSet, unmounted]
  rw [reportsFree, available, other]
  rfl

theorem deviceRow?_eq_none {d : Device}
    (taken : (c.report d).mounted = true ∨ d.isCacheSet = true ∨ (c.report d).datastore = true) :
    c.deviceRow? d = none := by
  have notFree : c.reportsFree d = false := by
    rw [reportsFree, Bool.and_eq_false_iff, Bool.not_eq_false']
    obtain mounted | cacheSet | datastore := taken
    · refine .inl ?_
      cases d with
      | disk d =>
        have mounted : d.isMounted = true := mounted
        show d.isAvailable = false
        simp [Disk.isAvailable, mounted]
      | partition p =>
        show (!p.filesystem.any (·.isMounted)) = false
        rw [Bool.not_eq_false']
        exact mounted
    · refine .inl ?_
      cases d with
      | disk d =>
        have cacheSet : d.isCacheSet = true := cacheSet
        show d.isAvailable = false
        simp [Disk.isAvailable, cacheSet]
      | partition p => cases cacheSet
    · exact .inr datastore
  rw [deviceRow?_eq, notFree]
  rfl

/-- The device has a row of its own among those of the machine, and it offers the action. -/
def OffersIn (m : Machine) (d : Device) (a : Action) : Prop :=
  ∃ row, c.deviceRow? d = some row ∧ row ∈ c.available m ∧ row.Offers a

theorem offersIn_of_allows {m : Machine} {d : Disk} (member : d ∈ m.disks)
    (free : c.reportsFree (.disk d) = true) {a : Action} (allowed : c.allows d a = true) :
    c.OffersIn m (.disk d) a := by
  have device : Device.disk d ∈ m.devices :=
    List.mem_flatMap.mpr ⟨d, member, List.mem_cons_self⟩
  refine ⟨c.row (.disk d), ?_, c.row_mem_available device free, (c.mem_actions_iff d a).mpr allowed⟩
  rw [deviceRow?_eq, if_pos free]

/-- A disk offers what its report allows. Every device has its own row or none, in order; a disk that
takes a partition or, without a datastore on it, a logical volume has one that offers this, and a
device that is mounted, a cache set or a datastore has none. -/
theorem offers_match_report (m : Machine) :
    (∀ d ∈ m.disks, c.MenuMatches d) ∧
    c.available m = m.devices.filterMap c.deviceRow? ∧
    (∀ d ∈ m.disks, (c.report (.disk d)).canBePartitioned = true →
      c.OffersIn m (.disk d) .addPartition) ∧
    (∀ d ∈ m.disks, (c.report (.disk d)).canCreateLogicalVolume = true →
      (c.report (.disk d)).datastore = false → c.OffersIn m (.disk d) .addLogicalVolume) ∧
    ∀ d ∈ m.devices,
      (c.report d).mounted = true ∨ d.isCacheSet = true ∨ (c.report d).datastore = true →
        c.deviceRow? d = none := by
  refine ⟨fun d _ => c.menuMatches d, c.available_eq_filterMap m, ?_, ?_, ?_⟩
  · intro d member added
    exact c.offersIn_of_allows member (c.reportsFree_of_canBePartitioned added) added
  · intro d member created other
    exact c.offersIn_of_allows member (c.reportsFree_of_canCreateLogicalVolume created other) created
  · exact fun d _ taken => c.deviceRow?_eq_none taken

def mountedDisk : Disk :=
  { Disk.new 3 .physical 5000000 with filesystem := some ⟨"ext4", "/srv", none, true⟩ }

/-- Two disks with room to spare, and one that is mounted. -/
def roomyMachine : Machine where
  systemId := "a"
  hostname := ""
  osystem := ""
  statusCode := 4
  disks := [Disk.new 1 .physical 5000000, Disk.new 2 .volumeGroup 5000000, mountedDisk]
  supportedFilesystems := []

theorem roomyMachine_offers :
    default.OffersIn roomyMachine (.disk (.new 1 .physical 5000000)) .addPartition ∧
    default.OffersIn roomyMachine (.disk (.new 2 .volumeGroup 5000000)) .addLogicalVolume ∧
    default.deviceRow? (.disk mountedDisk) = none ∧
    (default.available roomyMachine).map Row.key = ["physical-1", "lvm-vg-2"] := by
  obtain ⟨-, -, partitioned, created, taken⟩ := default.offers_match_report roomyMachine
  exact ⟨partitioned _ (by decide) (by decide), created _ (by decide) (by decide) (by decide),
    taken _ (by decide) (.inl (by decide)), by decide⟩

end Config

end Spindle
