import Spindle.Proofs.Device.Schema
import Spindle.Proofs.Json.ReadBack
import Spindle.Proofs.Schema.Completeness
import Spindle.Proofs.Schema.Documents

/-!
# Snapshots that are accepted

What is accepted as a snapshot follows the published schema, where records are written as objects and
tags as strings, but for one thing: the schema lists the types of a parent, and every other string is
accepted as well.
-/

namespace Spindle

open Json Schema

/-! ### Tags -/

theorem describes_partitionKind :
    Describes snapshot.definitions (.named "PartitionKind") (Wire.reader : Reader PartitionKind) :=
  describes_tags rfl rfl rfl rfl (by decide)

theorem describes_diskKind :
    Describes snapshot.definitions (.named "DiskType") (Wire.reader : Reader DiskKind) :=
  describes_tags rfl rfl rfl rfl (by decide)

theorem describes_groupKind :
    Describes snapshot.definitions (.named "ParentType") (Wire.reader : Reader GroupKind) :=
  describes_tagsOr rfl rfl

/-! ### Records -/

theorem describes_filesystem :
    Describes snapshot.definitions (.named "Filesystem") (Wire.reader : Reader Filesystem) :=
  describes_record (r := Filesystem.record) ⟨by decide, by decide, by decide⟩
    ⟨⟨_, rfl, describes_string⟩, ⟨_, rfl, describes_string⟩,
      ⟨_, rfl, describes_nullable describes_string⟩, ⟨_, rfl, describes_boolean⟩, trivial⟩ rfl rfl

theorem describes_partition :
    Describes snapshot.definitions (.named "Partition") (Wire.reader : Reader Partition) :=
  describes_record (r := Partition.record) ⟨by decide, by decide, by decide⟩
    ⟨⟨_, rfl, describes_uint64⟩, ⟨_, rfl, describes_partitionKind⟩, ⟨_, rfl, describes_string⟩,
      ⟨_, rfl, describes_uint64⟩, ⟨_, rfl, describes_nullable describes_filesystem⟩,
      ⟨_, rfl, describes_list describes_string⟩, ⟨_, rfl, describes_string⟩, trivial⟩ rfl rfl

theorem describes_parent :
    Describes snapshot.definitions (.named "DiskParent") (Wire.reader : Reader Parent) :=
  describes_record (r := Parent.record) ⟨by decide, by decide, by decide⟩
    ⟨⟨_, rfl, describes_uint64⟩, ⟨_, rfl, describes_groupKind⟩, ⟨_, rfl, describes_string⟩, trivial⟩
    rfl rfl

theorem describes_disk :
    Describes snapshot.definitions (.named "Disk") (Wire.reader : Reader Disk) :=
  describes_record (r := Disk.record) ⟨by decide, by decide, by decide⟩
    ⟨⟨_, rfl, describes_uint64⟩, ⟨_, rfl, describes_diskKind⟩, ⟨_, rfl, describes_string⟩,
      ⟨_, rfl, describes_uint64⟩, ⟨_, rfl, describes_uint64⟩, ⟨_, rfl, describes_uint64⟩,
      ⟨_, rfl, describes_nullable describes_filesystem⟩,
      ⟨_, rfl, describes_list describes_partition⟩, ⟨_, rfl, describes_nullable describes_parent⟩,
      ⟨_, rfl, describes_list describes_string⟩, ⟨_, rfl, describes_nullable describes_uint32⟩,
      ⟨_, rfl, describes_nullable (describes_list describes_uint32)⟩, ⟨_, rfl, describes_boolean⟩,
      ⟨_, rfl, describes_string⟩, ⟨_, rfl, describes_string⟩, ⟨_, rfl, describes_string⟩,
      ⟨_, rfl, describes_nullable describes_int32⟩, trivial⟩ rfl rfl

theorem describes_supportedFilesystem :
    Describes snapshot.definitions (.named "SupportedFilesystem")
      (Wire.reader : Reader SupportedFilesystem) :=
  describes_record (r := SupportedFilesystem.record) ⟨by decide, by decide, by decide⟩
    ⟨⟨_, rfl, describes_string⟩, ⟨_, rfl, describes_string⟩, trivial⟩ rfl rfl

theorem machine_suits {strict : Bool} {s rest rest' : List Char} {m : Machine} {v : Value}
    (read : (Wire.reader : Reader Machine).run s = .ok (m, rest))
    (doc : (document strict).run s = .ok (v, rest'))
    (plain : IsPlain snapshot.definitions snapshot.root.body v) :
    Suits snapshot.definitions snapshot.root.body v :=
  (suits_of_read (r := Machine.record) ⟨by decide, by decide, by decide⟩
    ⟨⟨_, rfl, describes_string⟩, ⟨_, rfl, describes_string⟩, ⟨_, rfl, describes_string⟩,
      ⟨_, rfl, describes_uint32⟩, ⟨_, rfl, describes_list describes_disk⟩,
      ⟨_, rfl, describes_list describes_supportedFilesystem⟩, trivial⟩ read doc plain).2

/-! ### Snapshots -/

theorem snapshot_closed : ∀ d ∈ snapshot.definitions, d.body.Closed snapshot.definitions := by
  decide

theorem parentType_of_tagsOr {d : Definition} (mem : d ∈ snapshot.definitions)
    {listed : List String} {other description : String}
    (body : d.body = .tagsOr listed other description) : d.body = parentType.body := by
  simp only [snapshot, List.mem_cons, List.not_mem_nil, or_false] at mem
  obtain rfl | rfl | rfl | rfl | rfl | rfl | rfl | rfl := mem
  all_goals first | rfl | cases body

theorem isPlain_of_listed {v : Value}
    (written : ∀ b w, Place snapshot.definitions snapshot.root.body v b w → b.IsWritten w)
    (listed : ∀ tag, Place snapshot.definitions snapshot.root.body v parentType.body (.string tag) →
      tag ∈ parentType.body.listed) : IsPlain snapshot.definitions snapshot.root.body v where
  written := written
  known tags other description tag place := by
    obtain root | ⟨d, mem, body⟩ := place.isDefined
    · cases root
    · have same := parentType_of_tagsOr mem body
      rw [body] at same
      have known := listed tag (same ▸ place)
      rwa [← same] at known

/-- What is accepted as a snapshot, with its records as objects and its tags as strings, follows the
schema that the `schema` command prints if and only if the types of all parents are listed there. -/
theorem accepted_valid_iff {t : String} {m : Machine} (accepted : Machine.ofText t = .ok m) :
    (∀ files args c, args.command = .schema → files.config args.config = .ok c →
      Cli.run files args = .done (snapshot.value.pretty ++ "\n")) ∧
    (∃ v, IsDocument t v) ∧
    ∀ v, IsDocument t v →
      (∀ b w, Place snapshot.definitions snapshot.root.body v b w → b.IsWritten w) →
      (Valid snapshot.value snapshot.value v ↔
        ∀ tag, Place snapshot.definitions snapshot.root.body v parentType.body (.string tag) →
          tag ∈ parentType.body.listed) := by
  have reads := Machine.ofText_eq_ok.mp accepted
  refine ⟨fun files args c command settings => ?_,
    (Reader.Exact.isJson ExactWire.exact reads).exists_document, ?_⟩
  · rw [Cli.run, settings, command]
    rfl
  rintro v ⟨strict, doc⟩ written
  obtain ⟨_, -, read⟩ := Reader.whole_eq_ok.mp reads
  obtain ⟨_, -, doc⟩ := Reader.whole_eq_ok.mp doc
  constructor
  · exact fun valid tag place => place.listed valid
  · intro listed
    exact valid_of_suits snapshot_closed (by decide)
      (machine_suits read doc (isPlain_of_listed written listed))

/-! ### One parent -/

/-- The parent of a virtual disk. -/
def groupParent (type : String) : Value := .object [("id", .ofInt 2), ("type", .string type)]

def groupDisk (type : String) : Value :=
  .object [("id", .ofInt 1), ("type", .string "virtual"), ("size", .ofInt 5),
    ("parent", groupParent type)]

def groupSnapshot (type : String) : Value :=
  .object [("system_id", .string "x"), ("status_code", .ofInt 4),
    ("disks", .array [groupDisk type])]

section
variable {type : String} {b : Body} {w : Value}

theorem place_groupSnapshot :
    Place snapshot.definitions snapshot.root.body (groupSnapshot type) b w ↔
      machine.body = b ∧ groupSnapshot type = w ∨ disk.body = b ∧ groupDisk type = w ∨
        diskType.body = b ∧ .string "virtual" = w ∨ parent.body = b ∧ groupParent type = w ∨
        parentType.body = b ∧ .string type = w := by
  simp [groupSnapshot, groupDisk, groupParent, snapshot, machine, disk, parent, parentType,
    diskType, filesystem, partition, partitionKind, supportedFilesystem, place_record, place_string]

theorem groupSnapshot_written
    (place : Place snapshot.definitions snapshot.root.body (groupSnapshot type) b w) :
    b.IsWritten w := by
  obtain ⟨rfl, rfl⟩ | ⟨rfl, rfl⟩ | ⟨rfl, rfl⟩ | ⟨rfl, rfl⟩ | ⟨rfl, rfl⟩ :=
    place_groupSnapshot.mp place
  all_goals exact ⟨_, rfl⟩

theorem groupSnapshot_type {tag : String} :
    Place snapshot.definitions snapshot.root.body (groupSnapshot type) parentType.body
      (.string tag) ↔ tag = type := by
  constructor
  · intro place
    obtain ⟨body, -⟩ | ⟨body, -⟩ | ⟨body, -⟩ | ⟨body, -⟩ | ⟨-, same⟩ := place_groupSnapshot.mp place
    case inr.inr.inr.inr => exact (Value.string.inj same).symm
    all_goals cases body
  · rintro rfl
    exact place_groupSnapshot.mpr (.inr (.inr (.inr (.inr ⟨rfl, rfl⟩))))

theorem groupSnapshot_isDocument : IsDocument (groupSnapshot type).compact (groupSnapshot type) := by
  have number (z : Int) : (Value.ofInt z).Proper Literal.WellFormed :=
    .number (Literal.ofInt_wellFormed z)
  have parent : (groupParent type).Proper Literal.WellFormed :=
    .object (by simp) (by simp [number, Value.Proper.string])
  have disk : (groupDisk type).Proper Literal.WellFormed :=
    .object (by simp) (by simp [number, parent, Value.Proper.string])
  have disks := Value.Proper.array (List.forall_mem_singleton.mpr disk)
  have whole : (groupSnapshot type).Proper Literal.WellFormed :=
    .object (by simp) (by simp [number, disks, Value.Proper.string])
  exact whole.isDocument

end

/-- The disk of such a snapshot as it is read. -/
def groupMachine (kind : GroupKind) : Machine :=
  ⟨"x", "", "", 4, [{ Disk.new 1 .virtual 5 with availableSize := 0, parent := some ⟨2, kind, ""⟩ }],
    []⟩

theorem raidSnapshot_valid :
    Cli.run ⟨fun _ => none, .empty⟩ ⟨none, "warn", false, .schema⟩ =
        .done (snapshot.value.pretty ++ "\n") ∧
      Machine.ofText (groupSnapshot "raid-5").compact = .ok (groupMachine (.raid .five)) ∧
      IsDocument (groupSnapshot "raid-5").compact (groupSnapshot "raid-5") ∧
      (∀ b w, Place snapshot.definitions snapshot.root.body (groupSnapshot "raid-5") b w →
        b.IsWritten w) ∧
      Valid snapshot.value snapshot.value (groupSnapshot "raid-5") := by
  have accepted : Machine.ofText (groupSnapshot "raid-5").compact =
      .ok (groupMachine (.raid .five)) := by decide +kernel
  have written (b : Body) (w : Value)
      (place : Place snapshot.definitions snapshot.root.body (groupSnapshot "raid-5") b w) :
      b.IsWritten w := groupSnapshot_written place
  obtain ⟨printed, -, described⟩ := accepted_valid_iff accepted
  refine ⟨printed _ _ .default rfl rfl, accepted, groupSnapshot_isDocument, written, ?_⟩
  refine (described _ groupSnapshot_isDocument written).mpr fun tag place => ?_
  rw [groupSnapshot_type.mp place]
  decide

/-- A type that is not listed is accepted, but the schema refuses it. -/
theorem unlisted_type_refused :
    Machine.ofText (groupSnapshot "raid-60").compact = .ok (groupMachine .unknown) ∧
      IsDocument (groupSnapshot "raid-60").compact (groupSnapshot "raid-60") ∧
      (∀ b w, Place snapshot.definitions snapshot.root.body (groupSnapshot "raid-60") b w →
        b.IsWritten w) ∧
      ¬ Valid snapshot.value snapshot.value (groupSnapshot "raid-60") := by
  refine ⟨by decide +kernel, groupSnapshot_isDocument, fun b w => groupSnapshot_written, ?_⟩
  intro valid
  have listed := Place.listed valid (groupSnapshot_type.mpr rfl)
  revert listed
  decide

end Spindle
