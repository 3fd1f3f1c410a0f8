import Spindle.Proofs.Json.RecordRoundTrip

/-!
# Objects are read by their keys

What it means for the objects of a record that only their known keys count, whatever the order of
the members, and that this is so for every record with lawful fields.
-/

namespace Spindle.Json

/-- Known keys occur at most once, each with a value that is read on its own as one of its field;
unknown keys may repeat, with any values. -/
structure ObjectText.Fits {αs : List Type} (fs : Fields αs) (o : ObjectText) : Prop where
  once : Once fs.keys o.members
  members : ∀ m ∈ o.members, m.Fits fs

/-- Objects are read as `S` by the known keys among their members; `GivenBy o s` says
that `s` is what the object `o` gives. -/
structure ReadsByKey (S : Type) [Wire S] {αs : List Type} (fs : Fields αs) (required : List String)
    (GivenBy : ObjectText → S → Prop) : Prop where
  /-- Nothing but a missing key is a fault. -/
  succeeds : ∀ o : ObjectText, o.Fits fs →
    ((∃ s, ofText S o.text = .ok s) ↔ ∀ key ∈ required, key ∈ o.keys)
  given : ∀ o : ObjectText, o.Fits fs → ∀ s, ofText S o.text = .ok s → GivenBy o s
  /-- The first key in the order of the fields is reported, whatever the order of the members. -/
  missing : ∀ o : ObjectText, o.Fits fs → ∀ key,
    required.find? (fun key => key ∉ o.keys) = some key →
      ofText S o.text = .error (.missingField key)
  /-- Members with unknown keys make no difference. -/
  unknown : ∀ o : ObjectText, o.Fits fs → ofText S (o.only fs.keys).text = ofText S o.text

/-! ### Without the unknown members -/

section
variable {αs : List Type} {fs : Fields αs} {o : ObjectText}

theorem ObjectText.Fits.only (fits : o.Fits fs) : (o.only fs.keys).Fits fs where
  once key known := by
    have sublist : ((o.only fs.keys).members.map Member.key).Sublist (o.members.map Member.key) :=
      (List.filter_sublist ..).map _
    exact Nat.le_trans (sublist.count_le key) (fits.once key known)
  members m mem := fits.members m (List.mem_filter.mp mem).1

theorem Field.given_filter {f : Field α} {keys : List String} (known : f.key ∈ keys)
    (ms : List Member) : f.given (ms.filter fun m => m.key ∈ keys) = f.given ms := by
  have same (m : Member) :
      decide (decide (m.key ∈ keys) = true ∧ decide (m.key = f.key) = true) =
        decide (m.key = f.key) := by
    by_cases eq : m.key = f.key
    · simp [eq, known]
    · simp [eq]
  simp only [given, List.find?_filter, same]

theorem Fields.filled_filter {keys : List String} (known : ∀ key ∈ fs.keys, key ∈ keys)
    (ms : List Member) : fs.filled (ms.filter fun m => m.key ∈ keys) = fs.filled ms := by
  induction αs with
  | nil => rfl
  | cons α αs ih =>
    obtain ⟨f, fs⟩ := fs
    exact Prod.ext (Field.given_filter (known f.key List.mem_cons_self) ms)
      (ih fun key mem => known key (List.mem_cons_of_mem _ mem))

end

/-! ### What a field holds -/

namespace Field

variable [Wire α] {key : String} {o : ObjectText} {v : α}

theorem given_of_required (holds : ((required key : Field α).given o.members).or none = some v) :
    o.given key = some v := by rwa [Option.or_none] at holds

theorem getD_of_defaulted {default : α}
    (holds : ((required key : Field α).given o.members).or (some default) = some v) :
    v = (o.given key).getD default := by
  rw [Option.or_some] at holds
  exact (Option.some.inj holds).symm

end Field

/-! ### Records -/

namespace Record.Lawful

variable {αs : List Type} {r : Record S αs} (lawful : r.Lawful)
include lawful

theorem ofText_text {o : ObjectText} (fits : o.Fits r.fields) :
    @ofText S r.wire o.text =
      (r.fields.complete (r.fields.filled o.members)).map (Values.apply r.build) := by
  rw [ofText, ObjectText.text, String.toList_ofList]
  exact whole_object lawful.persistent lawful.nodup fits.members fits.once

theorem ofText_of_present {o : ObjectText} (fits : o.Fits r.fields)
    (present : ∀ key ∈ r.fields.required, key ∈ o.keys) :
    ∃ vs, r.fields.Holds o.members vs ∧
      @ofText S r.wire o.text = .ok (Values.apply r.build vs) := by
  obtain ⟨vs, holds⟩ := Fields.holds_of_present (fun m mem => (fits.members m mem).known) present
  refine ⟨vs, holds, ?_⟩
  rw [lawful.ofText_text fits, Fields.complete_of_holds holds]
  rfl

theorem ofText_of_missing {o : ObjectText} (fits : o.Fits r.fields) {key : String}
    (missing : r.fields.required.find? (fun key => key ∉ o.keys) = some key) :
    @ofText S r.wire o.text = .error (.missingField key) := by
  rw [lawful.ofText_text fits,
    Fields.complete_of_missing (fun m mem => (fits.members m mem).known) missing]
  rfl

theorem present_of_ofText {o : ObjectText} (fits : o.Fits r.fields) {s : S}
    (reads : @ofText S r.wire o.text = .ok s) : ∀ key ∈ r.fields.required, key ∈ o.keys := by
  cases missing : r.fields.required.find? (fun key => key ∉ o.keys) with
  | none => simpa using List.find?_eq_none.mp missing
  | some key =>
    rw [lawful.ofText_of_missing fits missing] at reads
    cases reads

theorem holds_of_ofText {o : ObjectText} (fits : o.Fits r.fields) {s : S}
    (reads : @ofText S r.wire o.text = .ok s) :
    ∃ vs, r.fields.Holds o.members vs ∧ s = Values.apply r.build vs := by
  obtain ⟨vs, holds, same⟩ := lawful.ofText_of_present fits (lawful.present_of_ofText fits reads)
  rw [same] at reads
  exact ⟨vs, holds, (Except.ok.inj reads).symm⟩

/-- A record is read by its keys if `GivenBy` tells what its fields hold. -/
theorem readsByKey {required : List String} (same : r.fields.required = required)
    {GivenBy : ObjectText → S → Prop}
    (given : ∀ o vs, r.fields.Holds o.members vs → GivenBy o (Values.apply r.build vs)) :
    @ReadsByKey S r.wire αs r.fields required GivenBy := by
  subst same
  let := r.wire
  constructor
  · intro o fits
    refine ⟨fun ⟨s, reads⟩ => lawful.present_of_ofText fits reads, fun present => ?_⟩
    obtain ⟨vs, -, reads⟩ := lawful.ofText_of_present fits present
    exact ⟨_, reads⟩
  · intro o fits s reads
    obtain ⟨vs, holds, rfl⟩ := lawful.holds_of_ofText fits reads
    exact given o vs holds
  · exact fun o fits key missing => lawful.ofText_of_missing fits missing
  · intro o fits
    rw [lawful.ofText_text fits, lawful.ofText_text fits.only]
    exact congrArg (fun slots => (r.fields.complete slots).map _)
      (Fields.filled_filter (fun _ mem => mem) o.members)

end Record.Lawful

end Spindle.Json
