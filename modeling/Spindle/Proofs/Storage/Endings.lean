import Spindle.Error
import Spindle.Proofs.Json.Endings
import Spindle.Proofs.Storage.RoundTrip

/-!
# No snapshot is cut short

The text of every record says itself where it ends.
-/

namespace Spindle

open Json

theorem Machine.ofText_endsItself : EndsItself Machine.ofText .snapshotParse := by
  refine endsItself_of_goesOn fun t m reads s => ?_
  have read : Json.ofText Machine t = .ok m := by
    unfold ofText at reads
    split at reads
    · cases reads
    · cases reads
      assumption
  have grown : Json.ofText Machine (t ++ s) =
      if skipBlank s.toList = [] then .ok m else .error .trailingCharacters := by
    rw [Json.ofText, String.toList_append]
    exact Reader.Closes.whole_append (Record.reader_closes Machine.record_lawful.persistent) read _
  by_cases blank : skipBlank s.toList = []
  · rw [ofText, grown, if_pos blank, if_pos blank]
  · rw [ofText, grown, if_neg blank, if_neg blank]

/-- A text that is read as a record may go on with blanks alone, and what goes on with anything else
is reported as such. So no record is read from a part of its text. -/
theorem records_end_themselves :
    EndsItself Machine.ofText .snapshotParse ∧
    EndsItself (Json.ofText Machine) id ∧ EndsItself (Json.ofText Disk) id ∧
    EndsItself (Json.ofText Partition) id ∧ EndsItself (Json.ofText Filesystem) id ∧
    EndsItself (Json.ofText Parent) id ∧ EndsItself (Json.ofText SupportedFilesystem) id ∧
    EndsItself (Json.ofText ActionLink) id ∧ EndsItself (Json.ofText Report) id ∧
    EndsItself (Json.ofText Row) id ∧ EndsItself (Json.ofText Config) id ∧
    Json.Error.trailingCharacters.message = "trailing characters" :=
  ⟨Machine.ofText_endsItself, Machine.record_lawful.endsItself, Disk.record_lawful.endsItself,
    Partition.record_lawful.endsItself, Filesystem.record_lawful.endsItself,
    Parent.record_lawful.endsItself, SupportedFilesystem.record_lawful.endsItself,
    ActionLink.record_lawful.endsItself, Report.record_lawful.endsItself,
    Row.record_lawful.endsItself, Config.record_lawful.endsItself, rfl⟩

def bareMachine : String := "\x7b\"system_id\":\"x\",\"status_code\":4\x7d"

theorem bareMachine_ends :
    (∃ m, Machine.ofText bareMachine = .ok m ∧ Machine.ofText (bareMachine ++ " \n") = .ok m) ∧
    Machine.ofText (bareMachine ++ "\x7d") = .error (.snapshotParse .trailingCharacters) ∧
    ∃ e, Machine.ofText "\x7b\"system_id\":\"x\",\"status_code\":4" = .error e := by
  have machine := records_end_themselves.1
  have reads : Machine.ofText bareMachine = .ok ⟨"x", "", "", 4, [], []⟩ := by decide +kernel
  refine ⟨⟨_, reads, ?_⟩, ?_, ?_⟩
  · exact machine.blanks _ _ _ reads (List.all_eq_true.mp (by decide))
  · exact machine.goesOn _ _ _ reads fun blank => absurd (List.all_eq_true.mpr blank) (by decide)
  · exact machine.cut _ _ '\x7d' reads (by decide) rfl _ (by decide) (by decide)

end Spindle
