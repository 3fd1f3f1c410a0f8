import Spindle.Proofs.Device.Items
import Spindle.Proofs.Json.Sites

/-!
# Snapshots that are read are JSON

The text of every part of a snapshot is found again in the text of the whole.
-/

namespace Spindle

open Json

theorem Json.Tags.exactWire {t : Tags α} {write : α → Value}
    (lawful : @LawfulWire α ⟨t.reader, write⟩) : @ExactWire α ⟨t.reader, write⟩ :=
  let : Wire α := ⟨t.reader, write⟩
  { Tags.listItem lawful with exact := t.reader_exact }

instance : ExactWire DiskKind := Tags.exactWire inferInstance

instance : ExactWire PartitionKind := Tags.exactWire inferInstance

instance : ExactWire GroupKind := Tags.exactWire inferInstance

theorem Filesystem.record_exact : record.fields.Exact :=
  ⟨.required _, .defaulted _ _, .defaulted _ _, .defaulted _ _, trivial⟩

instance : ExactWire Filesystem := Filesystem.record_lawful.exactWire Filesystem.record_exact

theorem Partition.record_exact : record.fields.Exact :=
  ⟨.required _, .required _, .defaulted _ _, .required _, .defaulted _ _, .defaulted _ _,
    .defaulted _ _, trivial⟩

instance : ExactWire Partition := Partition.record_lawful.exactWire Partition.record_exact

theorem Parent.record_exact : record.fields.Exact :=
  ⟨.required _, .required _, .defaulted _ _, trivial⟩

instance : ExactWire Parent := Parent.record_lawful.exactWire Parent.record_exact

theorem Disk.record_exact : record.fields.Exact :=
  ⟨.required _, .required _, .defaulted _ _, .required _, .defaulted _ _, .defaulted _ _,
    .defaulted _ _, .defaulted _ _, .defaulted _ _, .defaulted _ _, .defaulted _ _,
    .defaulted _ _, .defaulted _ _, .defaulted _ _, .defaulted _ _, .defaulted _ _,
    .defaulted _ _, trivial⟩

instance : ExactWire Disk := Disk.record_lawful.exactWire Disk.record_exact

theorem SupportedFilesystem.record_exact : record.fields.Exact :=
  ⟨.required _, .required _, trivial⟩

instance : ExactWire SupportedFilesystem :=
  SupportedFilesystem.record_lawful.exactWire SupportedFilesystem.record_exact

theorem Machine.record_exact : record.fields.Exact :=
  ⟨.required _, .defaulted _ _, .defaulted _ _, .required _, .defaulted _ _, .defaulted _ _,
    trivial⟩

instance : ExactWire Machine := Machine.record_lawful.exactWire Machine.record_exact

/-- A text that is read as a machine is of the grammar to its end, and so is whatever it holds
under keys that nobody asked for. -/
theorem snapshot_isJson {text : String} {m : Machine} (reads : Machine.ofText text = .ok m) :
    IsJson text.toList :=
  Reader.Exact.isJson ExactWire.exact (Machine.ofText_eq_ok.mp reads)

/-- A machine with half a surrogate pair and a number in a list under a key that is unknown. -/
def faceText : String :=
  "\x7b\"system_id\":\"😀\",\"status_code\":4,\"x\":[\"\\ud800/\",-0.5]\x7d"

theorem faceText_toList : faceText.toList =
    '\x7b' :: '"' :: ((['s', 'y', 's', 't', 'e', 'm'] ++ (['_'] ++ ['i', 'd'])) ++ '"' :: ':' ::
      '"' :: ((['😀'] ++ []) ++ '"' :: ',' ::
      '"' :: (['s', 't', 'a', 't', 'u', 's', '_', 'c', 'o', 'd', 'e'] ++ '"' :: ':' :: (['4'] ++ ',' ::
      '"' :: (['x'] ++ '"' :: ':' ::
      '[' :: '"' :: ((['\\', 'u', 'd', '8', '0', '0'] ++ (['/'] ++ [])) ++ '"' :: ',' ::
      (['-', '0', '.', '5'] ++ [']', '\x7d']))))))) := String.toList_ofList

theorem faceText_read : Machine.ofText faceText = .ok ⟨"😀", "", "", 4, [], []⟩ := by
  rw [Machine.ofText_eq_ok, faceText_toList]
  decide +kernel

theorem faceText_isJson :
    Machine.ofText faceText = .ok ⟨"😀", "", "", 4, [], []⟩ ∧ IsJson faceText.toList :=
  ⟨faceText_read, snapshot_isJson faceText_read⟩

end Spindle
