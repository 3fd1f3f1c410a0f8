import Spindle.Proofs.Device.Exact
import Spindle.Proofs.Storage.RoundTrip

/-!
# Records by the places of their fields

How the arrays of every record are read. A field of a snapshot that has a default may be left out at
the end of an array; the optional columns of a row may not.
-/

namespace Spindle

open Json

instance : ListItem Action := Tags.listItem inferInstance

theorem Filesystem.readsByPlace : ReadsByPlace Filesystem record.fields "Filesystem" [0] :=
  record_lawful.readsByPlace record_exact.items nofun rfl

theorem Partition.readsByPlace : ReadsByPlace Partition record.fields "Partition" [0, 1, 3] :=
  record_lawful.readsByPlace record_exact.items nofun rfl

theorem Parent.readsByPlace : ReadsByPlace Parent record.fields "DiskParent" [0, 1] :=
  record_lawful.readsByPlace record_exact.items nofun rfl

theorem Disk.readsByPlace : ReadsByPlace Disk record.fields "Disk" [0, 1, 3] :=
  record_lawful.readsByPlace record_exact.items nofun rfl

theorem SupportedFilesystem.readsByPlace :
    ReadsByPlace SupportedFilesystem record.fields "SupportedFilesystem" [0, 1] :=
  record_lawful.readsByPlace record_exact.items nofun rfl

theorem Machine.readsByPlace : ReadsByPlace Machine record.fields "Machine" [0, 3] :=
  record_lawful.readsByPlace record_exact.items nofun rfl

theorem Config.record_items : record.fields.Items :=
  ⟨.defaulted _ _, .defaulted _ _, .defaulted _ _, trivial⟩

theorem Config.readsByPlace : ReadsByPlace Config record.fields "ClassifierConfig" [] :=
  record_lawful.readsByPlace record_items nofun rfl

theorem Report.record_items : record.fields.Items :=
  ⟨.required _, .required _, .required _, .required _, .required _, .required _, .required _,
    .required _, .required _, .required _, .required _, .required _, .required _, trivial⟩

theorem Report.readsByPlace :
    ReadsByPlace Report record.fields "DeviceReport" [0, 1, 2, 3, 4, 5, 6, 7, 8, 9, 10, 11, 12] :=
  record_lawful.readsByPlace record_items nofun rfl

theorem ActionLink.readsByPlace : ReadsByPlace ActionLink record.fields "ActionLink" [0, 1] :=
  record_lawful.readsByPlace ⟨.required _, .required _, trivial⟩ nofun rfl

theorem Row.record_items : record.fields.Items :=
  ⟨.required _, .required _, .nullable _, .nullable _, .nullable _, .nullable _, .required _,
    .required _, .required _, .nullable _, .required _, .required _, trivial⟩

theorem Row.readsByPlace :
    ReadsByPlace Row record.fields "StorageRow" [0, 1, 2, 3, 4, 5, 6, 7, 8, 9, 10, 11] :=
  record_lawful.readsByPlace record_items nofun rfl

/-- Every record is read by the places of its fields: which arrays are long enough, what they give,
and what is reported of the others. -/
theorem records_read_by_place :
    ReadsByPlace Machine Machine.record.fields "Machine" [0, 3] ∧
    ReadsByPlace Disk Disk.record.fields "Disk" [0, 1, 3] ∧
    ReadsByPlace Partition Partition.record.fields "Partition" [0, 1, 3] ∧
    ReadsByPlace Filesystem Filesystem.record.fields "Filesystem" [0] ∧
    ReadsByPlace Parent Parent.record.fields "DiskParent" [0, 1] ∧
    ReadsByPlace SupportedFilesystem SupportedFilesystem.record.fields "SupportedFilesystem"
      [0, 1] ∧
    ReadsByPlace ActionLink ActionLink.record.fields "ActionLink" [0, 1] ∧
    ReadsByPlace Report Report.record.fields "DeviceReport"
      [0, 1, 2, 3, 4, 5, 6, 7, 8, 9, 10, 11, 12] ∧
    ReadsByPlace Row Row.record.fields "StorageRow" [0, 1, 2, 3, 4, 5, 6, 7, 8, 9, 10, 11] ∧
    ReadsByPlace Config Config.record.fields "ClassifierConfig" [] ∧
    ∀ j name size, (Json.Error.wrongLength j name size).message =
      "invalid length " ++ toString j ++ ", expected struct " ++ name ++ " with " ++
        toString size ++ " elements" :=
  ⟨Machine.readsByPlace, Disk.readsByPlace, Partition.readsByPlace, Filesystem.readsByPlace,
    Parent.readsByPlace, SupportedFilesystem.readsByPlace, ActionLink.readsByPlace,
    Report.readsByPlace, Row.readsByPlace, Config.readsByPlace, fun _ _ _ => rfl⟩

/-! ### The arrays of a machine -/

/-- Four fields of a machine under their keys. -/
def fourFields : ObjectText :=
  .written Spacing.compact_blank 0
    [("system_id", .string "x"), ("hostname", .string ""), ("osystem", .string "ubuntu"),
      ("status_code", .ofInt 4)]

theorem machineArrays_read :
    ofText Machine "[\"x\",\"\",\"ubuntu\",4]" = ofText Machine fourFields.text ∧
    (∃ m, ofText Machine "[\"x\",\"\",\"ubuntu\",4]" = .ok m) ∧
    ofText Machine "[\"x\"]" = .error (.wrongLength 3 "Machine" 6) ∧
    ofText Machine "[\"x\",\"\",\"ubuntu\",4,[],[],null]" = .error .trailingCharacters := by
  have machine := records_read_by_place.1
  have four : Machine.record.fields.ReadEach
      (["\"x\"", "\"\"", "\"ubuntu\"", "4"].map String.toList) :=
    ⟨⟨"x", by decide +kernel⟩, ⟨"", by decide +kernel⟩, ⟨"ubuntu", by decide +kernel⟩,
      ⟨(4 : UInt32), by decide +kernel⟩, trivial⟩
  obtain ⟨m, reads⟩ := (machine.succeeds (.compact ["\"x\"", "\"\"", "\"ubuntu\"", "4"]) four
    (by decide)).mpr (by decide)
  have object := machine.same (.compact ["\"x\"", "\"\"", "\"ubuntu\"", "4"]) four (by decide) m
    reads fourFields (by unfold ObjectText.Spells; decide +kernel)
  refine ⟨?_, ⟨m, reads⟩, ?_, ?_⟩
  · rw [object]
    exact reads
  · exact machine.tooShort (.compact ["\"x\""]) ⟨⟨"x", by decide +kernel⟩, trivial⟩ (by decide) 3
      (by decide)
  · refine machine.tooLong (.compact ["\"x\"", "\"\"", "\"ubuntu\"", "4", "[]", "[]", "null"]) ?_
      (by decide)
    refine ⟨⟨"x", by decide +kernel⟩, ⟨"", by decide +kernel⟩, ⟨"ubuntu", by decide +kernel⟩,
      ⟨(4 : UInt32), by decide +kernel⟩, ⟨([] : List Disk), by decide +kernel⟩,
      ⟨([] : List SupportedFilesystem), by decide +kernel⟩, ?_⟩
    intro d mem
    rw [List.mem_singleton.mp mem]
    exact .null

end Spindle
