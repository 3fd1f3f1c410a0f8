import Spindle.Error
import Spindle.Proofs.Device.Wire
import Spindle.Storage.Wire

/-!
# Results are read back

Settings, reports, actions and rows are written so that they are read as themselves, and so is
every other value that is written.
-/

namespace Spindle

open Json

theorem Machine.ofText_write (m : Machine) : Machine.ofText (Wire.write m).compact = .ok m := by
  rw [Machine.ofText, (roundTrips Machine m).1]

theorem Config.record_lawful : record.Lawful where
  fields := ⟨.defaulted _ _, .defaulted _ _, .defaulted _ _, trivial⟩
  nodup := by decide
  built _ := rfl

instance : LawfulWire Config := Config.record_lawful.wire

theorem Report.record_lawful : record.Lawful where
  fields :=
    ⟨.required _, .required _, .required _, .required _, .required _, .required _, .required _,
      .required _, .required _, .required _, .required _, .required _, .required _, trivial⟩
  nodup := by decide
  built _ := rfl

instance : LawfulWire Report := Report.record_lawful.wire

instance : LawfulWire Action := Tags.lawfulWire fun a => by cases a <;> rfl

theorem ActionLink.record_lawful : record.Lawful where
  fields := ⟨.required _, .required _, trivial⟩
  nodup := by decide
  built _ := rfl

instance : LawfulWire ActionLink := ActionLink.record_lawful.wire

theorem Row.record_lawful : record.Lawful where
  fields :=
    ⟨.required _, .required _, .nullable _, .nullable _, .nullable _, .nullable _, .required _,
      .required _, .required _, .nullable _, .required _, .required _, trivial⟩
  nodup := by decide
  built _ := rfl

instance : LawfulWire Row := Row.record_lawful.wire

/-- Reading undoes writing for every type that goes over the wire. -/
theorem wire_roundTrips :
    RoundTrips Machine ∧ RoundTrips Disk ∧ RoundTrips Parent ∧ RoundTrips Partition ∧
      RoundTrips Filesystem ∧ RoundTrips SupportedFilesystem ∧ RoundTrips DiskKind ∧
      RoundTrips GroupKind ∧ RoundTrips PartitionKind ∧ RoundTrips RaidLevel ∧
      RoundTrips Action ∧ RoundTrips ActionLink ∧ RoundTrips Row ∧ RoundTrips Report ∧
      RoundTrips Config ∧ RoundTrips (List Row) ∧ RoundTrips (List Report) :=
  ⟨roundTrips _, roundTrips _, roundTrips _, roundTrips _, roundTrips _, roundTrips _,
    roundTrips _, roundTrips _, roundTrips _, roundTrips _, roundTrips _, roundTrips _,
    roundTrips _, roundTrips _, roundTrips _, roundTrips _, roundTrips _⟩

end Spindle
