import Spindle.Proofs.Json.Repeats
import Spindle.Proofs.Storage.ByKey

/-!
# Records with repeated keys

Every record refuses each of its keys the second time.
-/

namespace Spindle

open Json

/-- A repeated key of a record is an error, which is reported at once. -/
theorem repeated_keys_refused :
    RefusesRepeats Machine Machine.record.fields ∧
    RefusesRepeats Disk Disk.record.fields ∧
    RefusesRepeats Partition Partition.record.fields ∧
    RefusesRepeats Filesystem Filesystem.record.fields ∧
    RefusesRepeats Parent Parent.record.fields ∧
    RefusesRepeats SupportedFilesystem SupportedFilesystem.record.fields ∧
    RefusesRepeats ActionLink ActionLink.record.fields ∧
    RefusesRepeats Report Report.record.fields ∧
    RefusesRepeats Row Row.record.fields ∧
    RefusesRepeats Config Config.record.fields :=
  ⟨Machine.record_lawful.refusesRepeats (by decide), Disk.record_lawful.refusesRepeats (by decide),
    Partition.record_lawful.refusesRepeats (by decide),
    Filesystem.record_lawful.refusesRepeats (by decide),
    Parent.record_lawful.refusesRepeats (by decide),
    SupportedFilesystem.record_lawful.refusesRepeats (by decide),
    ActionLink.record_lawful.refusesRepeats (by decide),
    Report.record_lawful.refusesRepeats (by decide), Row.record_lawful.refusesRepeats (by decide),
    Config.record_lawful.refusesRepeats (by decide)⟩

/-- The system of a machine is written twice, with an unknown member in between. -/
def repeatedMembers : List Member :=
  [Member.written Spacing.compact_blank 0 ("system_id", .string "a"),
    Member.written Spacing.compact_blank 0 ("x", .array [.null])]

theorem repeatedMembers_refused :
    (∀ m ∈ repeatedMembers, m.Fits Machine.record.fields) ∧
      Once Machine.record.fields.keys repeatedMembers ∧
      ∃ e, ofText Machine "\x7b\"system_id\":\"a\",\"x\":[null],\"system_id\"]" = .error e ∧
        e.message = "duplicate field `system_id`" := by
  have system : (Member.written Spacing.compact_blank 0 ("system_id", .string "a")).Fits
      Machine.record.fields := by
    refine ⟨⟨fun _ => ⟨"a", LawfulWire.reads_after Spacing.compact_blank 1 "a"⟩, ?_, ?_, ?_, ?_, ?_,
      trivial⟩, fun unknown => absurd (by decide) unknown⟩
    all_goals exact fun same => absurd same (by decide)
  have other : (Member.written Spacing.compact_blank 0 ("x", .array [.null])).Fits
      Machine.record.fields :=
    ⟨Fields.all_of_notMem (by decide), fun _ => @IsJson.list [['n', 'u', 'l', 'l']] (by decide)
      (List.forall_mem_singleton.mpr .null)⟩
  have fits : ∀ m ∈ repeatedMembers, m.Fits Machine.record.fields :=
    List.forall_mem_cons.mpr ⟨system, List.forall_mem_singleton.mpr other⟩
  have once : Once Machine.record.fields.keys repeatedMembers := by unfold Once; decide
  exact ⟨fits, once,
    repeated_keys_refused.1 repeatedMembers "system_id" "]" fits once (by decide) (by decide)⟩

end Spindle
