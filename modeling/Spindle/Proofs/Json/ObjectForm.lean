import Spindle.Proofs.Json.RecordPersistence
import Spindle.Proofs.Json.Skipping

/-!
# Records written as objects

An object fills the fields of a record by its keys, whatever the order of its members; members with
other keys are passed over. The invariant is that after some members every field holds what those
members give it.
-/

namespace Spindle.Json

/-- A member with the key that its text spells. -/
structure Member extends MemberText where
  key : String
  before_blank : Blank before
  spells : Quoted.read true (body ++ ['"']) = .ok (key.toList, [])
  after_blank : Blank after

/-- An object as it is written, with blanks inside and around it. -/
structure ObjectText where
  lead : List Char
  members : List Member
  inner : List Char
  trail : List Char
  lead_blank : Blank lead
  inner_blank : Blank inner
  trail_blank : Blank trail

namespace ObjectText

def chars (o : ObjectText) : List Char :=
  o.lead ++ '\x7b' :: (separated (o.members.map fun m => m.chars) ++
    (o.inner ++ '\x7d' :: o.trail))

def text (o : ObjectText) : String := String.ofList o.chars

def keys (o : ObjectText) : List String := o.members.map Member.key

/-- The same object without the members of other keys. -/
def only (o : ObjectText) (keys : List String) : ObjectText :=
  { o with members := o.members.filter fun m => m.key ∈ keys }

/-- What the object says under a key, read as a value of `α`. -/
def given [Wire α] (o : ObjectText) (key : String) : Option α :=
  (o.members.find? fun m => m.key = key).bind fun m =>
    ((Wire.reader : Reader α).whole m.value).toOption

end ObjectText

/-- What some members say of a field. -/
def Field.given (f : Field α) (ms : List Member) : Option α :=
  (ms.find? fun m => m.key = f.key).bind fun m => (f.reader.whole m.value).toOption

/-- The value of a known key is one of its field; that of another key is any JSON value. -/
structure Member.Fits {αs : List Type} (fs : Fields αs) (m : Member) : Prop where
  known : fs.All fun _ f => m.key = f.key → ∃ v, f.reader.whole m.value = .ok v
  unknown : m.key ∉ fs.keys → IsJson m.value

/-- Every known key occurs at most once. -/
def Once (known : List String) (ms : List Member) : Prop :=
  ∀ key ∈ known, (ms.map Member.key).count key ≤ 1

namespace Fields

def filled : {αs : List Type} → Fields αs → List Member → Slots αs
  | [], (), _ => ()
  | _ :: _, (f, fs), ms => (f.given ms, filled fs ms)

def required : {αs : List Type} → Fields αs → List String
  | [], () => []
  | _ :: _, (f, fs) =>
    match f.absent with
    | none => f.key :: required fs
    | some _ => required fs

/-- Every field has the value that the members give it, or its default. -/
def Holds : {αs : List Type} → Fields αs → List Member → Values αs → Prop
  | [], (), _, () => True
  | _ :: _, (f, fs), ms, (v, vs) => (f.given ms).or f.absent = some v ∧ Holds fs ms vs

end Fields

/-! ### Filling fields -/

theorem Once.fresh {known : List String} {ms others : List Member} {m : Member}
    (once : Once known (ms ++ m :: others)) (mem : m.key ∈ known) : ∀ d ∈ ms, d.key ≠ m.key := by
  intro d found same
  have counted := once m.key mem
  have before : 0 < (ms.map Member.key).count m.key :=
    List.count_pos_iff.mpr (same ▸ List.mem_map_of_mem found)
  rw [List.map_append, List.map_cons, List.count_append, List.count_cons_self] at counted
  omega

section
variable {ms : List Member} {m : Member}

theorem Field.given_append_of_ne {f : Field α} (other : m.key ≠ f.key) :
    f.given (ms ++ [m]) = f.given ms := by
  rw [given, List.find?_append, List.find?_singleton, if_neg (by simpa using other), Option.or_none]
  rfl

theorem find?_eq_none {key : String} (others : ∀ d ∈ ms, d.key ≠ key) :
    ms.find? (fun d => d.key = key) = none := by
  rw [List.find?_eq_none]
  intro d mem
  simpa using others d mem

theorem Field.given_eq_none {f : Field α} (others : ∀ d ∈ ms, d.key ≠ f.key) :
    f.given ms = none := by
  rw [given, find?_eq_none others]
  rfl

/-- The first member with the key of a field decides. -/
theorem Field.given_append_cons {f : Field α} (others : ∀ d ∈ ms, d.key ≠ f.key)
    (same : m.key = f.key) {v : α} (reads : f.reader.whole m.value = .ok v) (rest : List Member) :
    f.given (ms ++ m :: rest) = some v := by
  rw [given, List.find?_append, find?_eq_none others, Option.none_or,
    List.find?_cons_of_pos (by simpa using same)]
  show (f.reader.whole m.value).toOption = some v
  rw [reads]
  rfl

namespace Fields

variable {αs : List Type} {fs : Fields αs}

theorem filled_nil : fs.filled [] = Slots.empty αs := by
  induction αs with
  | nil => rfl
  | cons α αs ih =>
    obtain ⟨f, fs⟩ := fs
    exact congrArg (Prod.mk none) ih

theorem filled_append_of_notMem (unknown : m.key ∉ fs.keys) :
    fs.filled (ms ++ [m]) = fs.filled ms := by
  induction αs with
  | nil => rfl
  | cons α αs ih =>
    obtain ⟨f, fs⟩ := fs
    obtain ⟨other, unknown⟩ := not_or.mp (List.mem_cons.not.mp unknown)
    exact Prod.ext (Field.given_append_of_ne other) (ih unknown)

theorem place_of_key {α : Type} {f : Field α} {slots : Slots αs} {key : String}
    (same : f.key = key) : @place (α :: αs) (f, fs) (none, slots) key =
      .free (f.reader.map fun v => (some v, slots)) := if_pos same

theorem place_of_other {α : Type} {f : Field α} {slot : Option α} {slots : Slots αs} {key : String}
    (other : f.key ≠ key) : @place (α :: αs) (f, fs) (slot, slots) key =
      (fs.place slots key).map fun slots => (slot, slots) := if_neg other

theorem place_of_notMem {key : String} (unknown : key ∉ fs.keys) (slots : Slots αs) :
    fs.place slots key = .unknown := by
  induction αs with
  | nil => rfl
  | cons α αs ih =>
    obtain ⟨f, fs⟩ := fs
    obtain ⟨slot, slots⟩ := slots
    obtain ⟨other, unknown⟩ := not_or.mp (List.mem_cons.not.mp unknown)
    rw [place_of_other (Ne.symm other), ih unknown]
    rfl

theorem place_of_mem (nodup : fs.keys.Nodup) (known : m.key ∈ fs.keys)
    (fresh : ∀ d ∈ ms, d.key ≠ m.key)
    (parses : fs.All fun _ f => m.key = f.key → ∃ v, f.reader.whole m.value = .ok v) :
    ∃ r, fs.place (fs.filled ms) m.key = .free r ∧
      r.whole m.value = .ok (fs.filled (ms ++ [m])) := by
  induction αs with
  | nil => cases known
  | cons α αs ih =>
    obtain ⟨f, fs⟩ := fs
    obtain ⟨head, tail⟩ := parses
    obtain ⟨unique, nodup⟩ := List.nodup_cons.mp nodup
    by_cases same : m.key = f.key
    · obtain ⟨v, reads⟩ := head same
      have empty := Field.given_eq_none (same ▸ fresh)
      have filled := Field.given_append_cons (same ▸ fresh) same reads []
      have others : Fields.filled fs (ms ++ [m]) = Fields.filled fs ms :=
        filled_append_of_notMem (same ▸ unique)
      refine ⟨f.reader.map fun v => (some v, Fields.filled fs ms), ?_, ?_⟩
      · rw [Fields.filled, empty]
        exact place_of_key same.symm
      · refine (Reader.whole_map _ _ _).trans ?_
        rw [reads, Fields.filled, filled, others]
        rfl
    · obtain ⟨r, free, reads⟩ := ih nodup ((List.mem_cons.mp known).resolve_left same) tail
      refine ⟨r.map fun slots => (f.given ms, slots), ?_, ?_⟩
      · refine (place_of_other (Ne.symm same)).trans ?_
        rw [free]
        rfl
      · refine (Reader.whole_map _ _ _).trans ?_
        rw [reads, Fields.filled, Field.given_append_of_ne same]
        rfl

end Fields

end

/-! ### Completing fields -/

theorem Field.given_isSome {f : Field α} {ms : List Member}
    (parses : ∀ m ∈ ms, m.key = f.key → ∃ v, f.reader.whole m.value = .ok v)
    (present : f.key ∈ ms.map Member.key) : ∃ v, f.given ms = some v := by
  cases found : ms.find? fun m => m.key = f.key with
  | none =>
    obtain ⟨m, mem, same⟩ := List.mem_map.mp present
    cases List.find?_eq_none.mp found m mem (by simpa using same)
  | some m =>
    have same : m.key = f.key := by simpa using List.find?_some found
    obtain ⟨v, reads⟩ := parses m (List.mem_of_find?_eq_some found) same
    refine ⟨v, ?_⟩
    rw [given, found]
    show (f.reader.whole m.value).toOption = some v
    rw [reads]
    rfl

namespace Fields

section
variable {α : Type} {αs : List Type} {f : Field α} {fs : Fields αs} {slot : Option α}
  {slots : Slots αs}

theorem complete_of_none (none : slot.or f.absent = none) :
    @complete (α :: αs) (f, fs) (slot, slots) = .error (.missingField f.key) := by
  rw [complete, none]

theorem complete_of_some {v : α} (some : slot.or f.absent = some v) :
    @complete (α :: αs) (f, fs) (slot, slots) = (fs.complete slots).map fun vs => (v, vs) := by
  rw [complete, some]
  dsimp only
  cases fs.complete slots <;> rfl

end

variable {αs : List Type} {fs : Fields αs} {ms : List Member}

theorem complete_of_holds {vs : Values αs} (holds : fs.Holds ms vs) :
    fs.complete (fs.filled ms) = .ok vs := by
  induction αs with
  | nil => rfl
  | cons α αs ih =>
    obtain ⟨f, fs⟩ := fs
    obtain ⟨v, vs⟩ := vs
    obtain ⟨head, tail⟩ := holds
    refine (complete_of_some head).trans ?_
    rw [ih tail]
    rfl

variable (parses : ∀ m ∈ ms, fs.All fun _ f => m.key = f.key → ∃ v, f.reader.whole m.value = .ok v)
include parses

theorem holds_of_present (present : ∀ key ∈ fs.required, key ∈ ms.map Member.key) :
    ∃ vs, fs.Holds ms vs := by
  induction αs with
  | nil => exact ⟨(), trivial⟩
  | cons α αs ih =>
    obtain ⟨f, fs⟩ := fs
    have tail := ih fun m mem => (parses m mem).2
    rw [required] at present
    cases absent : f.absent with
    | none =>
      rw [absent] at present
      obtain ⟨v, given⟩ := Field.given_isSome (fun m mem => (parses m mem).1)
        (present f.key List.mem_cons_self)
      obtain ⟨vs, holds⟩ := tail fun key mem => present key (List.mem_cons_of_mem _ mem)
      exact ⟨(v, vs), by rw [given]; rfl, holds⟩
    | some d =>
      rw [absent] at present
      obtain ⟨vs, holds⟩ := tail present
      exact ⟨((f.given ms).getD d, vs), by rw [absent, Option.or_some], holds⟩

/-- The first required key that is absent is the one reported. -/
theorem complete_of_missing {key : String}
    (missing : fs.required.find? (fun key => key ∉ ms.map Member.key) = some key) :
    fs.complete (fs.filled ms) = .error (.missingField key) := by
  induction αs with
  | nil => cases missing
  | cons α αs ih =>
    obtain ⟨f, fs⟩ := fs
    have tail := ih fun m mem => (parses m mem).2
    rw [required] at missing
    cases absent : f.absent with
    | none =>
      rw [absent] at missing
      dsimp only at missing
      by_cases present : f.key ∈ ms.map Member.key
      · obtain ⟨v, given⟩ := Field.given_isSome (fun m mem => (parses m mem).1) present
        rw [List.find?_cons_of_neg (by simpa using present)] at missing
        refine (complete_of_some (v := v) (by rw [given]; rfl)).trans ?_
        rw [tail missing]
        rfl
      · rw [List.find?_cons_of_pos (by simpa using present)] at missing
        obtain rfl := Option.some.inj missing
        refine complete_of_none ?_
        rw [Field.given_eq_none, absent]
        · rfl
        · exact fun d mem same => present (List.mem_map.mpr ⟨d, mem, same⟩)
    | some d =>
      rw [absent] at missing
      refine (complete_of_some (v := (f.given ms).getD d) (by rw [absent, Option.or_some])).trans ?_
      rw [tail missing]
      rfl

end Fields

/-! ### One member -/

theorem Member.reads_key (m : Member) (rest : List Char) :
    Quoted.read true (m.body ++ '"' :: (m.after ++ ':' :: rest)) =
      .ok (m.key.toList, m.after ++ ':' :: rest) := by
  have persists := Quoted.read_persists true (m.body ++ ['"']) (m.after ++ ':' :: rest)
  rw [m.spells, List.append_assoc] at persists
  exact persists.2 fun _ => (Delimits.cons rfl rest).blank_append m.after_blank

namespace Record

section
variable {αs : List Type} {fs : Fields αs} (persistent : fs.Persistent) (nodup : fs.keys.Nodup)
include persistent nodup

/-- A member fills the field of its key, or none. -/
theorem stepObject_member {ms : List Member} {m : Member} (fits : m.Fits fs)
    (fresh : m.key ∈ fs.keys → ∀ d ∈ ms, d.key ≠ m.key) :
    ∃ b', Blank b' ∧ ∀ first b rest, Blank b → Delimits rest →
      stepObject fs (first, fs.filled ms) (b ++ (due first m.chars ++ rest)) =
        .ok (.again (false, fs.filled (ms ++ [m])) (b' ++ rest)) := by
  obtain ⟨r, place, b', blank', takes⟩ :
      ∃ r, (fs.place (fs.filled ms) m.key = .unknown ∧ r = skipped.map (fun () => fs.filled ms) ∨
        fs.place (fs.filled ms) m.key = .free r) ∧ r.Takes m.value (fs.filled (ms ++ [m])) := by
    by_cases known : m.key ∈ fs.keys
    · obtain ⟨r, free, reads⟩ := Fields.place_of_mem nodup known (fresh known) fits.known
      exact ⟨r, .inr free, (place_persistent persistent free).takes reads⟩
    · have reads : (skipped.map fun () => fs.filled ms).whole m.value = .ok (fs.filled ms) := by
        rw [Reader.whole_map, skipped_whole (fits.unknown known)]
        rfl
      rw [Fields.filled_append_of_notMem known]
      exact ⟨_, .inl ⟨Fields.place_of_notMem known _, rfl⟩,
        (skipped_persistent.map fun () => fs.filled ms).takes reads⟩
  refine ⟨b', blank', fun first b rest blank delimits => stepObject_eq_ok.mpr (.inr ?_)⟩
  rw [← String.ofList_toList (s := m.key)] at place
  exact ⟨_, _, _, r, nextMember_due blank m.before_blank first rest, m.reads_key _, place,
    readMember_eq_ok.mpr ⟨_, _, _, Document.readColon_append m.after_blank _, takes rest delimits,
      rfl⟩⟩

end

/-! ### The whole object -/

section
variable {αs : List Type} {fs : Fields αs}

theorem run_close {b : List Char} (blank : Blank b) (first : Bool) (slots : Slots αs)
    (rest : List Char) :
    (object fs).run (first, slots) (b ++ '\x7d' :: rest) =
      (fs.complete slots).map fun vs => (vs, rest) := by
  cases complete : fs.complete slots with
  | error e =>
    refine Loop.run_error ?_
    show stepObject _ _ _ = _
    simp only [stepObject, nextMember_brace blank, complete]
  | ok vs =>
    refine Loop.run_done ?_
    show stepObject _ _ _ = _
    simp only [stepObject, nextMember_brace blank, complete]

variable (persistent : fs.Persistent) (nodup : fs.keys.Nodup)
include persistent nodup

/-- Members fill their fields, and the object is read on from behind the last of them. -/
theorem run_joined (ms : List Member) {others : List Member} (fits : ∀ m ∈ others, m.Fits fs)
    (once : Once fs.keys (ms ++ others)) (first : Bool) {b : List Char} (blank : Blank b) :
    ∃ b', Blank b' ∧ ∀ rest, Delimits rest →
      (object fs).run (first, fs.filled ms)
          (b ++ (joined first (others.map fun m => m.chars) ++ rest)) =
        (object fs).run (first && others.isEmpty, fs.filled (ms ++ others)) (b' ++ rest) := by
  induction others generalizing ms first b with
  | nil =>
    refine ⟨b, blank, fun rest _ => ?_⟩
    rw [List.append_nil, List.isEmpty_nil, Bool.and_true]
    rfl
  | cons m others ih =>
    obtain ⟨c, c_blank, steps⟩ := stepObject_member persistent nodup
      (fits m List.mem_cons_self) (Once.fresh once)
    rw [List.append_cons ms m others] at once ⊢
    obtain ⟨b', blank', runs⟩ :=
      ih (ms ++ [m]) (fun m mem => fits m (List.mem_cons_of_mem _ mem)) once false c_blank
    refine ⟨b', blank', fun rest delimits => ?_⟩
    have step := steps first b _ blank (.following (others.map fun m => m.chars) delimits)
    have later := runs rest delimits
    rw [joined_false] at later
    rw [List.map_cons, joined, List.append_assoc, Loop.run_again step, later, List.isEmpty_cons,
      Bool.and_false]
    rfl

/-- From the first member on. -/
theorem run_separated {ms : List Member} (fits : ∀ m ∈ ms, m.Fits fs) (once : Once fs.keys ms) :
    ∃ b, Blank b ∧ ∀ rest, Delimits rest →
      (object fs).run (true, .empty αs) (separated (ms.map fun m => m.chars) ++ rest) =
        (object fs).run (ms.isEmpty, fs.filled ms) (b ++ rest) := by
  have joined := run_joined persistent nodup [] fits once true .nil
  rwa [fs.filled_nil, joined_true, Bool.true_and] at joined

theorem run_members {ms : List Member} (fits : ∀ m ∈ ms, m.Fits fs) (once : Once fs.keys ms)
    {inner : List Char} (inner_blank : Blank inner) (rest : List Char) :
    (object fs).run (true, .empty αs)
        (separated (ms.map fun m => m.chars) ++ (inner ++ '\x7d' :: rest)) =
      (fs.complete (fs.filled ms)).map fun vs => (vs, rest) := by
  obtain ⟨b, blank, runs⟩ := run_separated persistent nodup fits once
  rw [runs _ (.blank_append inner_blank (.cons rfl rest)), ← List.append_assoc]
  exact run_close (blank.append inner_blank) _ _ rest

end

/-- An object is read as the record of what it gives to each field. -/
theorem whole_object {αs : List Type} {r : Record S αs} (persistent : r.fields.Persistent)
    (nodup : r.fields.keys.Nodup) {o : ObjectText} (fits : ∀ m ∈ o.members, m.Fits r.fields)
    (once : Once r.fields.keys o.members) :
    r.reader.whole o.chars =
      (r.fields.complete (r.fields.filled o.members)).map (Values.apply r.build) := by
  have values : (Reader.afterBlanks r.readValues readValues_le).run o.chars =
      (r.fields.complete (r.fields.filled o.members)).map fun vs => (vs, o.trail) := by
    refine (Reader.afterBlanks_run (skipBlank_blank_cons o.lead_blank (c := '\x7b') rfl _)).trans ?_
    exact run_members persistent nodup fits once o.inner_blank o.trail
  rw [reader, Reader.whole_map, Reader.whole, values]
  cases r.fields.complete (r.fields.filled o.members) with
  | error e => rfl
  | ok vs =>
    show Except.map _ (if skipBlank o.trail = [] then _ else _) = _
    rw [if_pos (skipBlank_eq_nil.mpr o.trail_blank)]

end Record

end Spindle.Json
