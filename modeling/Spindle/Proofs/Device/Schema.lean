import Spindle.Cli.Run
import Spindle.Proofs.Device.Spelling
import Spindle.Proofs.Schema.Readers

/-!
# Snapshots that follow the schema

Every part of a snapshot is described by the published schema as it is read, and so a snapshot that
follows the schema is accepted.
-/

namespace Spindle

open Json Schema

/-! ### Tags -/

theorem accepts_partitionKind :
    Accepts snapshot.definitions (.named "PartitionKind") (Wire.reader : Reader PartitionKind) :=
  accepts_tags rfl rfl fun tag mem => by
    obtain rfl | rfl : tag = "partition" ∨ tag = "vmfs6" := by simpa using mem
    all_goals exact ⟨_, rfl⟩

theorem accepts_diskKind :
    Accepts snapshot.definitions (.named "DiskType") (Wire.reader : Reader DiskKind) :=
  accepts_tags rfl rfl fun tag mem => by
    obtain rfl | rfl | rfl | rfl | rfl : tag = "physical" ∨ tag = "virtual" ∨ tag = "lvm-vg" ∨
      tag = "cache-set" ∨ tag = "iscsi" := by simpa using mem
    all_goals exact ⟨_, rfl⟩

theorem accepts_groupKind :
    Accepts snapshot.definitions (.named "ParentType") (Wire.reader : Reader GroupKind) :=
  accepts_tagsOr rfl rfl rfl

/-! ### Records -/

theorem accepts_filesystem :
    Accepts snapshot.definitions (.named "Filesystem") (Wire.reader : Reader Filesystem) :=
  accepts_record Filesystem.record_lawful
    ⟨described_required rfl accepts_string rfl, described_defaulted rfl accepts_string _,
      described_defaulted rfl (accepts_nullable accepts_string) _,
      described_defaulted rfl accepts_boolean _, trivial⟩ rfl rfl

theorem accepts_partition :
    Accepts snapshot.definitions (.named "Partition") (Wire.reader : Reader Partition) :=
  accepts_record Partition.record_lawful
    ⟨described_required rfl accepts_uint64 rfl, described_required rfl accepts_partitionKind rfl,
      described_defaulted rfl accepts_string _, described_required rfl accepts_uint64 rfl,
      described_defaulted rfl (accepts_nullable accepts_filesystem) _,
      described_defaulted rfl (accepts_list accepts_string) _,
      described_defaulted rfl accepts_string _, trivial⟩ rfl rfl

theorem accepts_parent :
    Accepts snapshot.definitions (.named "DiskParent") (Wire.reader : Reader Parent) :=
  accepts_record Parent.record_lawful
    ⟨described_required rfl accepts_uint64 rfl, described_required rfl accepts_groupKind rfl,
      described_defaulted rfl accepts_string _, trivial⟩ rfl rfl

theorem accepts_disk : Accepts snapshot.definitions (.named "Disk") (Wire.reader : Reader Disk) :=
  accepts_record Disk.record_lawful
    ⟨described_required rfl accepts_uint64 rfl, described_required rfl accepts_diskKind rfl,
      described_defaulted rfl accepts_string _, described_required rfl accepts_uint64 rfl,
      described_defaulted rfl accepts_uint64 _, described_defaulted rfl accepts_uint64 _,
      described_defaulted rfl (accepts_nullable accepts_filesystem) _,
      described_defaulted rfl (accepts_list accepts_partition) _,
      described_defaulted rfl (accepts_nullable accepts_parent) _,
      described_defaulted rfl (accepts_list accepts_string) _,
      described_defaulted rfl (accepts_nullable accepts_uint32) _,
      described_defaulted rfl (accepts_nullable (accepts_list accepts_uint32)) _,
      described_defaulted rfl accepts_boolean _, described_defaulted rfl accepts_string _,
      described_defaulted rfl accepts_string _, described_defaulted rfl accepts_string _,
      described_defaulted rfl (accepts_nullable accepts_int32) _, trivial⟩ rfl rfl

theorem accepts_supportedFilesystem :
    Accepts snapshot.definitions (.named "SupportedFilesystem")
      (Wire.reader : Reader SupportedFilesystem) :=
  accepts_record SupportedFilesystem.record_lawful
    ⟨described_required rfl accepts_string rfl, described_required rfl accepts_string rfl, trivial⟩
    rfl rfl

theorem machine_accepts {v : Value} (proper : v.Proper Literal.WellFormed)
    (suits : Suits snapshot.definitions snapshot.root.body v) (depth : Nat) :
    ∃ m, (Wire.reader : Reader Machine).whole (v.chars .compact depth) = .ok m :=
  record_accepts Machine.record_lawful
    ⟨described_required rfl accepts_string rfl, described_defaulted rfl accepts_string _,
      described_defaulted rfl accepts_string _, described_required rfl accepts_uint32 rfl,
      described_defaulted rfl (accepts_list accepts_disk) _,
      described_defaulted rfl (accepts_list accepts_supportedFilesystem) _, trivial⟩
    proper suits depth

/-- The `schema` command prints the snapshot schema, and every JSON value that follows it is
accepted as a snapshot, in every spelling of its text. -/
theorem schema_describes_snapshots :
    (∀ files args c, args.command = .schema → files.config args.config = .ok c →
      Cli.run files args = .done (snapshot.value.pretty ++ "\n")) ∧
    ∀ v : Value, v.Proper Literal.WellFormed → Valid snapshot.value snapshot.value v →
      (∀ l, AsksInteger snapshot.value snapshot.value v l → l.IsPlain) →
      ∀ t : String, Respelled v.compact.toList t.toList → ∃ m, Machine.ofText t = .ok m := by
  constructor
  · intro files args c command settings
    rw [Cli.run, settings, command]
    rfl
  · intro v proper valid plain t respelled
    obtain ⟨m, reads⟩ := machine_accepts proper (suits_of_valid valid plain) 0
    have accepted : Machine.ofText v.compact = .ok m := by
      rwa [Machine.ofText_eq_ok, Value.compact, String.toList_ofList]
    exact ⟨m, Machine.ofText_respelled respelled accepted⟩

/-! ### A snapshot that follows the schema -/

/-- A literal as integers are written. -/
def Json.Literal.IsWritten (l : Literal) : Prop := ∃ z, l = .ofInt z

theorem Schema.AsksInteger.of_proper {root schema v : Value} {l : Literal} {good : Literal → Prop}
    (asks : AsksInteger root schema v l) (proper : v.Proper good) : good l := by
  induction asks with
  | here =>
    cases proper with
    | number number => exact number
  | reference _ _ _ ih => exact ih proper
  | part _ part _ ih =>
    refine ih ?_
    cases proper with
    | array items =>
      simp only [parts] at part
      split at part
      · obtain ⟨v, mem, rfl⟩ := List.mem_map.mp part
        exact items v mem
      · cases part
    | object _ values =>
      simp only [parts] at part
      split at part
      · obtain ⟨m, mem, found⟩ := List.mem_filterMap.mp part
        obtain ⟨s, -, rfl⟩ := Option.map_eq_some_iff.mp found
        exact values m mem
      · cases part
    | null | boolean | number | string => cases part
  | choice _ _ _ ih => exact ih proper

/-- A virtual disk with a parent, and an unknown member. -/
def raidSnapshot : Value :=
  .object [("status_code", .ofInt 4), ("x", .array [.null]), ("system_id", .string "a\n"),
    ("disks", .array [.object [("id", .ofInt 1), ("type", .string "virtual"), ("size", .ofInt 5),
      ("parent", .object [("id", .ofInt 2), ("type", .string "raid-5")])]])]

theorem raidSnapshot_proper : raidSnapshot.Proper Literal.IsWritten := by
  have number (z : Int) : (Value.ofInt z).Proper Literal.IsWritten := .number ⟨z, rfl⟩
  have parent : (Value.object [("id", .ofInt 2), ("type", .string "raid-5")]).Proper
      Literal.IsWritten :=
    .object (by decide) (by simp [number, Value.Proper.string])
  have disk : (Value.object [("id", .ofInt 1), ("type", .string "virtual"), ("size", .ofInt 5),
      ("parent", .object [("id", .ofInt 2), ("type", .string "raid-5")])]).Proper
      Literal.IsWritten :=
    .object (by decide) (by simp [number, parent, Value.Proper.string])
  have disks := Value.Proper.array (List.forall_mem_singleton.mpr disk)
  have nulls : (Value.array [.null]).Proper Literal.IsWritten :=
    .array (List.forall_mem_singleton.mpr .null)
  exact .object (by decide) (by simp [number, disks, nulls, Value.Proper.string])

theorem raidSnapshot_accepted :
    Cli.run ⟨fun _ => none, .empty⟩ ⟨none, "warn", false, .schema⟩ =
      .done (snapshot.value.pretty ++ "\n") ∧
    raidSnapshot.Proper Literal.WellFormed ∧ Valid snapshot.value snapshot.value raidSnapshot ∧
    ∃ m, Machine.ofText raidSnapshot.pretty = .ok m := by
  obtain ⟨printed, accepted⟩ := schema_describes_snapshots
  have proper : raidSnapshot.Proper Literal.WellFormed :=
    raidSnapshot_proper.imp fun l ⟨z, same⟩ => same ▸ Literal.ofInt_wellFormed z
  have plain (l : Literal) (asks : AsksInteger snapshot.value snapshot.value raidSnapshot l) :
      l.IsPlain := by
    obtain ⟨z, rfl⟩ := asks.of_proper raidSnapshot_proper
    exact Literal.ofInt_isPlain z
  have valid : Valid snapshot.value snapshot.value raidSnapshot := ⟨10, by decide +kernel⟩
  exact ⟨printed _ _ .default rfl rfl, proper, valid,
    accepted raidSnapshot proper valid plain _ proper.respelled_pretty⟩

end Spindle
