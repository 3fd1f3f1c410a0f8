import Spindle.Proofs.Device.Exact
import Spindle.Proofs.Storage.Unread

/-!
# Types of parents

Any string may be the type of a parent. Seven of them say what a virtual disk is; with any other the
disk is read as one that has no parent at all, and nothing else of the machine changes.
-/

namespace Spindle

open Json

/-! ### What a string says of a parent -/

namespace GroupKind

def table : List (String × GroupKind) :=
  [("lvm-vg", volumeGroup), ("bcache", bcache), ("raid-0", raid .zero), ("raid-1", raid .one),
    ("raid-5", raid .five), ("raid-6", raid .six), ("raid-10", raid .ten)]

def words : List String := ["lvm-vg", "bcache", "raid-0", "raid-1", "raid-5", "raid-6", "raid-10"]

def ofWord (s : String) : GroupKind := (table.lookup s).getD unknown

theorem ofTag_eq (s : String) : tags.ofTag s = .ok (ofWord s) := by
  have listed : tags.listed = table := by decide
  rw [Tags.ofTag, listed, ofWord]
  cases table.lookup s <;> rfl

theorem ofWord_of_notMem {s : String} (other : s ∉ words) : ofWord s = unknown := by
  have unlisted : table.lookup s = none := by
    rw [List.lookup_eq_none_iff]
    intro entry mem
    have word : entry.1 ∈ words := List.mem_map_of_mem (f := Prod.fst) mem
    rw [bne_iff_ne]
    rintro rfl
    exact other word
  rw [ofWord, unlisted]
  rfl

end GroupKind

/-- Wherever a string is read, a tag of the same text is read. -/
theorem Json.Tags.whole_of_string {t : Tags α} {w : List Char} {s : String}
    (reads : (Wire.reader : Reader String).whole w = .ok s) {v : α} (known : t.ofTag s = .ok v) :
    t.reader.whole w = .ok v := by
  obtain ⟨rest, blank, run⟩ := Reader.whole_eq_ok.mp reads
  obtain ⟨c, u, found, string⟩ := Reader.afterBlanks_eq_ok.mp run
  obtain ⟨quote, cs, token, rfl⟩ := readString_eq_ok.mp string
  exact Reader.whole_eq_ok.mpr ⟨rest, blank, Reader.afterBlanks_eq_ok.mpr
    ⟨c, u, found, Tags.read_eq_ok.mpr (.inl ⟨quote, cs, token, known⟩)⟩⟩

/-! ### Where the parent of a disk stands -/

/-- The machine with another parent, or none, for one of its disks. -/
def Machine.withParent (m : Machine) (i : Nat) (p : Option Parent) : Machine :=
  { m with disks := m.disks.modify i fun d => { d with parent := p } }

theorem Json.Record.notNull {αs : List Type} {r : Record S αs} (nodup : r.fields.keys.Nodup)
    (exact : r.fields.Exact) {x : List Char} {v : S} (reads : r.reader.whole x = .ok v) :
    (skipBlank x).head? ≠ some 'n' := by
  obtain ⟨vs, -, ⟨o, rfl, -⟩ | ⟨a, rfl, -⟩⟩ := whole_form nodup exact reads
  · rw [ObjectText.chars, skipBlank_blank_cons o.lead_blank rfl]
    simp
  · rw [ArrayText.chars, skipBlank_blank_cons a.lead_blank rfl]
    simp

section
variable {s : List Char}

theorem disks_stand {m : Machine} (reads : (Wire.reader : Reader Machine).whole s = .ok m)
    (some : m.disks ≠ []) :
    ∃ pre x post, Stands (Wire.reader : Reader Machine) (Wire.reader : Reader (List Disk))
      (fun disks => { m with disks }) s m.disks pre x post := by
  obtain ⟨vs, same, stands⟩ :=
    Record.stands_in_record Machine.record_lawful.nodup Machine.record_exact reads
  obtain ⟨systemId, hostname, osystem, statusCode, disks, supported, ⟨⟩⟩ := vs
  subst same
  exact stands (4 : Position (List Disk) _) fun default => some (Option.some.inj default).symm

theorem parent_stands {d : Disk} (reads : (Wire.reader : Reader Disk).whole s = .ok d)
    (some : d.parent ≠ none) :
    ∃ pre x post, Stands (Wire.reader : Reader Disk) (Wire.reader : Reader (Option Parent))
      (fun parent => { d with parent }) s d.parent pre x post := by
  obtain ⟨vs, same, stands⟩ :=
    Record.stands_in_record Disk.record_lawful.nodup Disk.record_exact reads
  obtain ⟨id, kind, name, size, availableSize, usedSize, filesystem, partitions, parent, tags,
    numaNode, numaNodeList, isBoot, model, serial, firmware, testStatus, ⟨⟩⟩ := vs
  subst same
  exact stands (8 : Position (Option Parent) _) fun default => some (Option.some.inj default).symm

theorem kind_stands {p : Parent} (reads : (Wire.reader : Reader Parent).whole s = .ok p) :
    ∃ pre x post, Stands (Wire.reader : Reader Parent) (Wire.reader : Reader GroupKind)
      (fun kind => { p with kind }) s p.kind pre x post := by
  obtain ⟨vs, same, stands⟩ :=
    Record.stands_in_record Parent.record_lawful.nodup Parent.record_exact reads
  obtain ⟨id, kind, uuid, ⟨⟩⟩ := vs
  subst same
  exact stands (1 : Position GroupKind _) nofun

/-- The parent of a disk stands somewhere in the snapshot. -/
theorem machine_parent_stands {m : Machine}
    (reads : (Wire.reader : Reader Machine).whole s = .ok m) {i : Nat} {d : Disk}
    (here : m.disks[i]? = some d) {p : Parent} (built : d.parent = some p) :
    ∃ pre x post, Stands (Wire.reader : Reader Machine) (Wire.reader : Reader (Option Parent))
        (m.withParent i) s (some p) pre x post ∧
      Stands (Wire.reader : Reader (Option Parent)) (Wire.reader : Reader Parent) some x p [] x [] := by
  have notEmpty : m.disks ≠ [] := by
    intro empty
    rw [empty] at here
    cases here
  obtain ⟨pre₁, disks, post₁, list⟩ := disks_stand reads notEmpty
  obtain ⟨pre₂, disk, post₂, item⟩ := stands_in_list list.reads here
  obtain ⟨pre₃, x, post₃, parent⟩ := parent_stands item.reads (by rw [built]; nofun)
  have outer := list.trans (item.trans parent)
  have put : (fun disks => { m with disks }) ∘ m.disks.set i ∘ (fun parent => { d with parent }) =
      m.withParent i := by
    funext p
    simp [Machine.withParent, List.modify_eq_set_getElem?, here]
  rw [put, built] at outer
  exact ⟨_, x, _, outer, stands_in_option
    (Record.notNull Parent.record_lawful.nodup Parent.record_exact) outer.reads⟩

end

/-! ### A parent that says nothing -/

section
variable {d : Disk} {p q : Option Parent}
  (same : ({ d with parent := p } : Disk).logicalKind = ({ d with parent := q } : Disk).logicalKind)
include same

namespace Config

variable (c : Config)

theorem canBePartitioned_congr : c.canBePartitioned { d with parent := p } =
    c.canBePartitioned { d with parent := q } := by
  rw [canBePartitioned, canBePartitioned, Disk.isPartitionable_congr same rfl]

theorem report_congr : c.report (.disk { d with parent := p }) =
    c.report (.disk { d with parent := q }) := by
  have label := Disk.label_congr same rfl
  have partitioned := c.canBePartitioned_congr same
  simp only [report, Device.label, label, partitioned]
  rfl

theorem diskRow?_congr : c.diskRow? { d with parent := p } = c.diskRow? { d with parent := q } := by
  have label := Disk.label_congr same rfl
  have phrase := Disk.phrase_congr same rfl
  have partitioned := c.canBePartitioned_congr same
  simp only [diskRow?, Row.ofDisk, diskActions, label, phrase, partitioned]
  rfl

end Config

end

theorem flatMap_modify_congr {f : α → List β} {g h : α → α} (same : ∀ x, f (g x) = f (h x))
    (xs : List α) (i : Nat) : (xs.modify i g).flatMap f = (xs.modify i h).flatMap f := by
  induction xs generalizing i with
  | nil => simp
  | cons x xs ih =>
    cases i with
    | zero => simp [same]
    | succ i => simp [ih]

theorem Machine.reports_congr {p q : Option Parent}
    (same : ∀ d : Disk, ({ d with parent := p } : Disk).logicalKind =
      ({ d with parent := q } : Disk).logicalKind) (m : Machine) (i : Nat) (c : Config) :
    (m.withParent i p).devices.map c.report = (m.withParent i q).devices.map c.report ∧
      c.available (m.withParent i p) = c.available (m.withParent i q) := by
  constructor
  · unfold devices
    rw [List.map_flatMap, List.map_flatMap]
    refine flatMap_modify_congr (fun d => ?_) m.disks i
    rw [List.map_cons, List.map_cons, c.report_congr (same d)]
  · refine flatMap_modify_congr (fun d => ?_) m.disks i
    rw [c.diskRow?_congr (same d)]

/-! ### The type of a parent -/

/-- Any string may stand for the type of a parent. The seven listed ones are read as what they say,
and every other leaves the reports and the free devices as they are without the parent. -/
theorem parent_type_degrades {text : String} {m : Machine} (reads : Machine.ofText text = .ok m)
    {i : Nat} {d : Disk} (here : m.disks[i]? = some d) {p : Parent} (built : d.parent = some p) :
    ∃ before lead old tail after : String,
      text = before ++ (lead ++ old ++ tail) ++ after ∧
      Json.ofText Parent (lead ++ old ++ tail) = .ok p ∧
      Json.ofText GroupKind old = .ok p.kind ∧
      (∀ s w, Json.ofText String w = .ok s →
        Machine.ofText (before ++ (lead ++ w ++ tail) ++ after) =
          .ok (m.withParent i (some { p with kind := .ofWord s }))) ∧
      Machine.ofText (before ++ "null" ++ after) = .ok (m.withParent i none) ∧
      ∀ s, s ∉ GroupKind.words →
        GroupKind.ofWord s = .unknown ∧
        ∀ c : Config,
          (m.withParent i (some { p with kind := .ofWord s })).devices.map c.report =
            (m.withParent i none).devices.map c.report ∧
          c.available (m.withParent i (some { p with kind := .ofWord s })) =
            c.available (m.withParent i none) := by
  have read := Machine.ofText_eq_ok.mp reads
  obtain ⟨pre, x, post, outer, parent⟩ := machine_parent_stands read here built
  obtain ⟨lead, y, tail, kind⟩ := kind_stands parent.reads
  have machine {t : List Char} {m : Machine}
      (read : (Wire.reader : Reader Machine).whole t = .ok m) :
      Machine.ofText (String.ofList t) = .ok m :=
    Machine.ofText_eq_ok.mpr (by rwa [String.toList_ofList])
  refine ⟨.ofList pre, .ofList lead, .ofList y, .ofList tail, .ofList post, ?_, ?_, ?_, ?_, ?_, ?_⟩
  · rw [← String.toList_inj, outer.text, kind.text]
    simp
  · rw [← String.ofList_append, ← String.ofList_append, List.append_assoc, ← kind.text, Json.ofText,
      String.toList_ofList]
    exact parent.reads
  · rw [Json.ofText, String.toList_ofList]
    exact kind.reads
  · intro s w string
    have tag : (Wire.reader : Reader GroupKind).whole w.toList = .ok (.ofWord s) :=
      Tags.whole_of_string string (GroupKind.ofTag_eq s)
    have whole := machine ((outer.trans (parent.trans kind)).site _ _ tag)
    simpa [String.append_assoc] using whole
  · have whole := machine (outer.site "null".toList none rfl)
    rwa [String.ofList_append, String.ofList_append, String.ofList_toList,
      ← String.append_assoc] at whole
  · intro s other
    have plain := GroupKind.ofWord_of_notMem other
    refine ⟨plain, fun c => ?_⟩
    rw [plain]
    exact Machine.reports_congr (p := some { p with kind := .unknown }) (q := none)
      (fun d => rfl) m i c

/-- A machine with a RAID built from a group. -/
def raidText : String :=
  "\x7b\"system_id\":\"x\",\"status_code\":4,\"disks\":[\x7b\"id\":1,\"type\":\"virtual\"," ++
    "\"size\":5,\"parent\":\x7b\"id\":2,\"type\":\"raid-5\"\x7d\x7d]\x7d"

def raidDisk : Disk :=
  { Disk.new 1 .virtual 5 with availableSize := 0, parent := some ⟨2, .raid .five, ""⟩ }

theorem raidText_degrades :
    ∃ before lead old tail after : String,
      raidText = before ++ (lead ++ old ++ tail) ++ after ∧
      Json.ofText GroupKind old = .ok (.raid .five) ∧
      Machine.ofText (before ++ (lead ++ "\"bcache\"" ++ tail) ++ after) =
        .ok ⟨"x", "", "", 4, [{ raidDisk with parent := some ⟨2, .bcache, ""⟩ }], []⟩ ∧
      Machine.ofText (before ++ (lead ++ "\"raid-4\"" ++ tail) ++ after) =
        .ok ⟨"x", "", "", 4, [{ raidDisk with parent := some ⟨2, .unknown, ""⟩ }], []⟩ := by
  have reads : Machine.ofText raidText = .ok ⟨"x", "", "", 4, [raidDisk], []⟩ := by decide +kernel
  obtain ⟨before, lead, old, tail, after, text, -, kind, written, -⟩ :=
    parent_type_degrades reads (i := 0) rfl (p := ⟨2, .raid .five, ""⟩) rfl
  refine ⟨before, lead, old, tail, after, text, kind, ?_, ?_⟩
  · exact written "bcache" "\"bcache\"" (by decide +kernel)
  · exact written "raid-4" "\"raid-4\"" (by decide +kernel)

end Spindle
