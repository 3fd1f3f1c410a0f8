import Spindle.Proofs.Json.Gaps
import Spindle.Proofs.Json.Integers
import Spindle.Proofs.Storage.ByPlace

/-!
# Integers are read exactly

Every integer field of a snapshot and of the results takes the literals of its word, each as the
integer that it is, and refuses all others; and so does the text around it.
-/

namespace Spindle

open Json Schema

/-! ### Integers in a gap -/

/-- Wherever an integer stands, the literals of the word and no others are read, each as it is. -/
def Schema.Word.ReadInGaps (w : Word) (I : Type) [Wire I] (value : I → Int) : Prop :=
  ∀ (S : Type) [Wire S] (put : I → S) (text : List Char → List Char),
    Gap (Wire.reader : Reader S) (Wire.reader : Reader I) put text →
      w.ReadsExactly value (fun l => ofText S (String.ofList (text l.chars))) put

theorem Json.Literal.WellFormed.starts {l : Literal} (wellFormed : l.WellFormed) :
    Starts l.chars := by
  obtain ⟨c, s, text, starts⟩ := wellFormed.startsNumber
  refine ⟨c, s, by rw [text, skipBlank_cons (isBlank_of_startsNumber starts)], ?_, ?_⟩
  all_goals
    rintro rfl
    cases starts

theorem Schema.Word.Converts.readInGaps {w : Word} {I : Type} [Wire I] {convert : Int → Option I}
    {value : I → Int} (converts : w.Converts convert value)
    (reader : (Wire.reader : Reader I) = Json.integer w.name convert) : w.ReadInGaps I value := by
  intro S _ put text gap
  have exact := converts.readsExactly
  rw [reader] at gap
  have frames := gap.frames
  have whole {l : Literal} (wellFormed : l.WellFormed) : ofText S (String.ofList (text l.chars)) =
      ((Json.integer w.name convert).whole l.chars).map put := by
    rw [ofText, String.toList_ofList]
    cases read : (Json.integer w.name convert).whole l.chars with
    | ok n => exact frames.accepts _ n wellFormed.starts read
    | error e => exact frames.rejects _ e wellFormed.starts read (closed_of_integer wellFormed read)
  constructor
  · intro l wellFormed
    rw [← exact.accepts l wellFormed, whole wellFormed]
    cases (Json.integer w.name convert).whole l.chars <;> simp [Except.map]
  · intro l wellFormed s read
    rw [whole wellFormed] at read
    cases number : (Json.integer w.name convert).whole l.chars with
    | ok n =>
      rw [number] at read
      cases read
      obtain ⟨_, stored, rfl⟩ := exact.stores l wellFormed n number
      exact ⟨_, stored, rfl⟩
    | error e =>
      rw [number] at read
      cases read
  · intro l wellFormed plain outside z value low high
    rw [whole wellFormed, exact.reports l wellFormed plain outside z value low high]
    rfl

theorem Schema.Word.readInGaps_uint64 : uint64.ReadInGaps UInt64 fun n => n.toNat :=
  converts_uint64.readInGaps rfl

theorem Schema.Word.readInGaps_uint32 : uint32.ReadInGaps UInt32 fun n => n.toNat :=
  converts_uint32.readInGaps rfl

theorem Schema.Word.readInGaps_int32 : int32.ReadInGaps Int32 Int32.toInt :=
  converts_int32.readInGaps rfl

theorem Json.Error.message_wrongInteger (z : Int) (expected : String) :
    (wrongValue (.integer z) expected).message =
      "invalid value: integer `" ++ toString z ++ "`, expected " ++ expected := by
  have before : "invalid value: " ++ "integer `" = "invalid value: integer `" := by decide
  have after : "`" ++ ", expected " = "`, expected " := by decide
  calc (wrongValue (.integer z) expected).message
    _ = "invalid value: " ++ ("integer `" ++ toString z ++ "`") ++ ", expected " ++ expected := rfl
    _ = ("invalid value: " ++ "integer `") ++ toString z ++ ("`" ++ ", expected ") ++ expected := by
      simp only [String.append_assoc]
    _ = "invalid value: integer `" ++ toString z ++ "`, expected " ++ expected :=
      congrArg₂ (fun a b => a ++ toString z ++ b ++ expected) before after

/-! ### The fields -/

namespace Machine

theorem hasGap_statusCode : HasGap Machine record.fields "status_code"
    fun m (n : UInt32) => { m with statusCode := n } :=
  record_lawful.hasGap record_exact.items (3 : Position UInt32 _) rfl fun _ _ => rfl

theorem hasGap_disks : HasGap Machine record.fields "disks"
    fun m (ds : List Disk) => { m with disks := ds } :=
  record_lawful.hasGap record_exact.items (4 : Position (List Disk) _) rfl fun _ _ => rfl

end Machine

namespace Disk

theorem hasGap_id : HasGap Disk record.fields "id"
    fun d (n : UInt64) => { d with id := n } :=
  record_lawful.hasGap record_exact.items (0 : Position UInt64 _) rfl fun _ _ => rfl

theorem hasGap_size : HasGap Disk record.fields "size"
    fun d (n : UInt64) => { d with size := n } :=
  record_lawful.hasGap record_exact.items (3 : Position UInt64 _) rfl fun _ _ => rfl

theorem hasGap_availableSize : HasGap Disk record.fields "available_size"
    fun d (n : UInt64) => { d with availableSize := n } :=
  record_lawful.hasGap record_exact.items (4 : Position UInt64 _) rfl fun _ _ => rfl

theorem hasGap_usedSize : HasGap Disk record.fields "used_size"
    fun d (n : UInt64) => { d with usedSize := n } :=
  record_lawful.hasGap record_exact.items (5 : Position UInt64 _) rfl fun _ _ => rfl

theorem hasGap_partitions : HasGap Disk record.fields "partitions"
    fun d (ps : List Partition) => { d with partitions := ps } :=
  record_lawful.hasGap record_exact.items (7 : Position (List Partition) _) rfl fun _ _ => rfl

theorem hasGap_parent : HasGap Disk record.fields "parent"
    fun d (p : Option Parent) => { d with parent := p } :=
  record_lawful.hasGap record_exact.items (8 : Position (Option Parent) _) rfl fun _ _ => rfl

theorem hasGap_numaNode : HasGap Disk record.fields "numa_node"
    fun d (n : Option UInt32) => { d with numaNode := n } :=
  record_lawful.hasGap record_exact.items (10 : Position (Option UInt32) _) rfl fun _ _ => rfl

theorem hasGap_numaNodeList : HasGap Disk record.fields "numa_nodes"
    fun d (ns : Option (List UInt32)) => { d with numaNodeList := ns } :=
  record_lawful.hasGap record_exact.items (11 : Position (Option (List UInt32)) _) rfl
    fun _ _ => rfl

theorem hasGap_testStatus : HasGap Disk record.fields "test_status"
    fun d (n : Option Int32) => { d with testStatus := n } :=
  record_lawful.hasGap record_exact.items (16 : Position (Option Int32) _) rfl fun _ _ => rfl

end Disk

namespace Partition

theorem hasGap_id : HasGap Partition record.fields "id"
    fun p (n : UInt64) => { p with id := n } :=
  record_lawful.hasGap record_exact.items (0 : Position UInt64 _) rfl fun _ _ => rfl

theorem hasGap_size : HasGap Partition record.fields "size"
    fun p (n : UInt64) => { p with size := n } :=
  record_lawful.hasGap record_exact.items (3 : Position UInt64 _) rfl fun _ _ => rfl

end Partition

namespace Parent

theorem hasGap_id : HasGap Parent record.fields "id"
    fun p (n : UInt64) => { p with id := n } :=
  record_lawful.hasGap record_exact.items (0 : Position UInt64 _) rfl fun _ _ => rfl

end Parent

namespace Report

theorem hasGap_bytes : HasGap Report record.fields "size_bytes"
    fun r (n : UInt64) => { r with bytes := n } :=
  record_lawful.hasGap record_items (4 : Position UInt64 _) rfl fun _ _ => rfl

end Report

namespace Config

theorem hasGap_minPartitionSize : HasGap Config record.fields "min_partition_size"
    fun c (n : UInt64) => { c with minPartitionSize := n } :=
  record_lawful.hasGap record_items (0 : Position UInt64 _) rfl fun _ _ => rfl

end Config

namespace Row

theorem hasGap_numaNodes : HasGap Row record.fields "numa_nodes"
    fun r (ns : List UInt32) => { r with numaNodes := ns } :=
  record_lawful.hasGap record_items (8 : Position (List UInt32) _) rfl fun _ _ => rfl

theorem hasGap_testStatus : HasGap Row record.fields "test_status"
    fun r (n : Option Int32) => { r with testStatus := n } :=
  record_lawful.hasGap record_items (9 : Position (Option Int32) _) rfl fun _ _ => rfl

end Row

/-- Integers are read exactly or refused, wherever they stand: in every record, in a list or not, and
in a part of a part. -/
theorem integers_read_exactly :
    Word.uint64.ReadInGaps UInt64 (fun n => n.toNat) ∧
    Word.uint32.ReadInGaps UInt32 (fun n => n.toNat) ∧
    Word.int32.ReadInGaps Int32 Int32.toInt ∧
    (∀ z expected, (Json.Error.wrongValue (.integer z) expected).message =
      "invalid value: integer `" ++ toString z ++ "`, expected " ++ expected) ∧
    HasGap Machine Machine.record.fields "status_code"
      (fun m (n : UInt32) => { m with statusCode := n }) ∧
    HasGap Machine Machine.record.fields "disks"
      (fun m (ds : List Disk) => { m with disks := ds }) ∧
    HasGap Disk Disk.record.fields "id" (fun d (n : UInt64) => { d with id := n }) ∧
    HasGap Disk Disk.record.fields "size" (fun d (n : UInt64) => { d with size := n }) ∧
    HasGap Disk Disk.record.fields "available_size"
      (fun d (n : UInt64) => { d with availableSize := n }) ∧
    HasGap Disk Disk.record.fields "used_size" (fun d (n : UInt64) => { d with usedSize := n }) ∧
    HasGap Disk Disk.record.fields "partitions"
      (fun d (ps : List Partition) => { d with partitions := ps }) ∧
    HasGap Disk Disk.record.fields "parent"
      (fun d (p : Option Parent) => { d with parent := p }) ∧
    HasGap Disk Disk.record.fields "numa_node"
      (fun d (n : Option UInt32) => { d with numaNode := n }) ∧
    HasGap Disk Disk.record.fields "numa_nodes"
      (fun d (ns : Option (List UInt32)) => { d with numaNodeList := ns }) ∧
    HasGap Disk Disk.record.fields "test_status"
      (fun d (n : Option Int32) => { d with testStatus := n }) ∧
    HasGap Partition Partition.record.fields "id" (fun p (n : UInt64) => { p with id := n }) ∧
    HasGap Partition Partition.record.fields "size" (fun p (n : UInt64) => { p with size := n }) ∧
    HasGap Parent Parent.record.fields "id" (fun p (n : UInt64) => { p with id := n }) ∧
    HasGap Report Report.record.fields "size_bytes"
      (fun r (n : UInt64) => { r with bytes := n }) ∧
    HasGap Config Config.record.fields "min_partition_size"
      (fun c (n : UInt64) => { c with minPartitionSize := n }) ∧
    HasGap Row Row.record.fields "numa_nodes"
      (fun r (ns : List UInt32) => { r with numaNodes := ns }) ∧
    HasGap Row Row.record.fields "test_status"
      (fun r (n : Option Int32) => { r with testStatus := n }) := by
  exact ⟨Word.readInGaps_uint64, Word.readInGaps_uint32, Word.readInGaps_int32,
    Json.Error.message_wrongInteger, Machine.hasGap_statusCode, Machine.hasGap_disks,
    Disk.hasGap_id, Disk.hasGap_size, Disk.hasGap_availableSize, Disk.hasGap_usedSize,
    Disk.hasGap_partitions, Disk.hasGap_parent, Disk.hasGap_numaNode, Disk.hasGap_numaNodeList,
    Disk.hasGap_testStatus, Partition.hasGap_id, Partition.hasGap_size, Parent.hasGap_id,
    Report.hasGap_bytes, Config.hasGap_minPartitionSize, Row.hasGap_numaNodes,
    Row.hasGap_testStatus⟩

/-! ### A size in a snapshot -/

def sizedDisk : Disk := { Disk.new 1 .physical 5 with availableSize := 0 }

def sizedMembers : List (String × Value) :=
  [("id", .ofInt 1), ("type", .string "physical"), ("size", .ofInt 5)]

def sizedDiskObject : ObjectText := .written Spacing.compact_blank 0 sizedMembers

/-- A machine with one disk. -/
def sizedMachineObject : ObjectText :=
  .written Spacing.compact_blank 0
    [("system_id", .string "x"), ("status_code", .ofInt 4), ("disks", .array [.object sizedMembers])]

theorem sizedDiskObject_fits : sizedDiskObject.Fits Disk.record.fields := by
  refine ⟨by unfold Once; decide, fun m mem => ?_⟩
  obtain rfl | rfl | rfl : _ ∨ _ ∨ _ := by
    simpa [sizedDiskObject, sizedMembers, ObjectText.written] using mem
  · exact .written Disk.record_lawful.nodup "id" rfl rfl (1 : UInt64)
  · exact .written Disk.record_lawful.nodup "type" rfl rfl DiskKind.physical
  · exact .written Disk.record_lawful.nodup "size" rfl rfl (5 : UInt64)

theorem sizedMachineObject_fits : sizedMachineObject.Fits Machine.record.fields := by
  refine ⟨by unfold Once; decide, fun m mem => ?_⟩
  obtain rfl | rfl | rfl : _ ∨ _ ∨ _ := by
    simpa [sizedMachineObject, ObjectText.written] using mem
  · exact .written Machine.record_lawful.nodup "system_id" rfl rfl "x"
  · exact .written Machine.record_lawful.nodup "status_code" rfl rfl (4 : UInt32)
  · exact .of_find? Machine.record_lawful.nodup "disks" rfl rfl (v := [sizedDisk])
      (by decide +kernel)

/-- The machine with another size of its disk. -/
def sizedText (size : String) : String :=
  "\x7b\"system_id\":\"x\",\"status_code\":4,\"disks\":[\x7b\"id\":1,\"type\":\"physical\"," ++
    "\"size\":" ++ size ++ "\x7d]\x7d"

theorem sizedText_read :
    (∃ m, ofText Machine (sizedText "18446744073709551615") = .ok m ∧
      m.disks.map (fun d => d.size.toNat) = [18446744073709551615]) ∧
    ofText Machine (sizedText "-1") = .error (.wrongValue (.integer (-1)) "u64") ∧
    ¬ ∃ m, ofText Machine (sizedText "5.0") = .ok m := by
  obtain ⟨word, -, -, -, -, disks, -, size, -⟩ := integers_read_exactly
  let written := Member.written Spacing.compact_blank 0
  have outer := disks.member sizedMachineObject sizedMachineObject_fits
    ⟨"x", "", "", 4, [sizedDisk], []⟩ (by decide +kernel)
    [written ("system_id", .string "x"), written ("status_code", .ofInt 4)]
    (written ("disks", .array [.object sizedMembers])) [] rfl rfl
  have item : Gap (Wire.reader : Reader (List Disk)) (Wire.reader : Reader Disk) _ _ :=
    .item .nil .nil .nil .nil .nil
  have inner := size.member sizedDiskObject sizedDiskObject_fits sizedDisk (by decide +kernel)
    [written ("id", .ofInt 1), written ("type", .string "physical")]
    (written ("size", .ofInt 5)) [] rfl rfl
  have exact := word Machine _ _ (outer.nested (item.nested inner))
  refine ⟨?_, ?_, ?_⟩
  · have range : Word.uint64.Holds (Literal.ofInt 18446744073709551615).value := by
      rw [Literal.value_ofInt, Word.holds_intCast]
      decide
    obtain ⟨m, read⟩ := (exact.accepts _ (Literal.ofInt_wellFormed _)).mpr
      ⟨Literal.ofInt_isPlain _, range⟩
    obtain ⟨n, stored, rfl⟩ := exact.stores _ (Literal.ofInt_wellFormed _) m read
    rw [Literal.value_ofInt, Rat.intCast_inj] at stored
    refine ⟨_, (congrArg (ofText Machine) (by decide +kernel)).trans read, ?_⟩
    exact congrArg (fun n => [n]) (Int.ofNat.inj stored)
  · have outside : ¬ Word.uint64.Holds (Literal.ofInt (-1)).value := by
      rw [Literal.value_ofInt, Word.holds_intCast]
      decide
    have read := exact.reports _ (Literal.ofInt_wellFormed _) (Literal.ofInt_isPlain _) outside (-1)
      (Literal.value_ofInt _) (by decide) (by decide)
    exact (congrArg (ofText Machine) (by decide +kernel)).trans read
  · rintro ⟨m, read⟩
    have wellFormed : (⟨false, ['5'], some ['0'], none⟩ : Literal).WellFormed :=
      ⟨by simp [Literal.IsDigits], by decide, by simp [Literal.IsDigits], nofun⟩
    obtain ⟨plain, -⟩ := (exact.accepts _ wellFormed).mp
      ⟨m, (congrArg (ofText Machine) (by decide +kernel)).trans read⟩
    cases plain.fraction

end Spindle
