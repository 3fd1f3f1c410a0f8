import Spindle.Proofs.Json.ObjectForm
import Spindle.Proofs.Json.RoundTrip

/-!
# Records are read back

A written record is an object that gives every field its value, once and under its own key.
-/

namespace Spindle.Json

structure Field.Lawful (f : Field α) : Prop where
  persistent : f.reader.Persistent
  reads_back : ∀ {sp : Spacing}, sp.Blank → ∀ depth v,
    f.reader.whole (sp.colon ++ (f.write v).chars sp depth) = .ok v

abbrev Fields.Lawful {αs : List Type} (fs : Fields αs) : Prop := fs.All fun _ f => f.Lawful

theorem LawfulWire.reads_after [Wire α] [LawfulWire α] {sp : Spacing} (blank : sp.Blank)
    (depth : Nat) (v : α) :
    Wire.reader.whole (sp.colon ++ (Wire.write v).chars sp depth) = .ok v := by
  rw [Reader.whole, LawfulWire.leading blank.colon]
  exact LawfulWire.reads_back blank depth v

namespace Field.Lawful

variable [Wire α] [LawfulWire α]

theorem required (key : String) : (Field.required key : Field α).Lawful :=
  ⟨PersistentWire.persistent, LawfulWire.reads_after⟩

theorem defaulted (key : String) (default : α) : (Field.defaulted key default).Lawful :=
  ⟨PersistentWire.persistent, LawfulWire.reads_after⟩

theorem nullable [NonNull α] (key : String) : (Field.nullable key : Field (Option α)).Lawful :=
  ⟨PersistentWire.persistent, LawfulWire.reads_after⟩

end Field.Lawful

/-! ### The text of an object -/

section
variable {sp : Spacing} (blank : sp.Blank) (depth : Nat)

def Member.written (m : String × Value) : Member where
  before := sp.line (depth + 1)
  body := m.1.toList.flatMap Quoted.writeChar
  after := []
  value := sp.colon ++ m.2.chars sp (depth + 1)
  key := m.1
  before_blank := blank.line _
  spells := Quoted.read_write m.1.toList []
  after_blank := .nil

def ObjectText.written (ms : List (String × Value)) : ObjectText where
  lead := []
  members := ms.map (Member.written blank depth)
  inner := if ms = [] then [] else sp.line depth
  trail := []
  lead_blank := .nil
  inner_blank := by
    split
    · exact .nil
    · exact blank.line depth
  trail_blank := .nil

theorem memberChars_eq (ms : List (String × Value)) :
    Value.memberChars sp depth ms =
      following (ms.map fun m => (Member.written blank depth m).chars) ++
        (sp.line depth ++ ['\x7d']) := by
  induction ms with
  | nil => rfl
  | cons m ms ih =>
    rw [Value.memberChars, ih, List.map_cons, following_cons]
    simp [MemberText.chars, Member.written, Quoted.write]

theorem chars_written (ms : List (String × Value)) :
    (ObjectText.written blank depth ms).chars = (Value.object ms).chars sp depth := by
  cases ms with
  | nil => rfl
  | cons m ms =>
    rw [Value.chars, memberChars_eq blank]
    simp [ObjectText.chars, ObjectText.written, MemberText.chars, Member.written, Quoted.write,
      separated]
    rfl

end

/-! ### A written record -/

namespace Fields

variable {αs : List Type} {fs : Fields αs}

theorem All.imp {P Q : (α : Type) → Field α → Prop} (h : ∀ α f, P α f → Q α f) (all : fs.All P) :
    fs.All Q := by
  induction αs with
  | nil => trivial
  | cons α αs ih =>
    obtain ⟨f, fs⟩ := fs
    exact ⟨h α f all.1, ih all.2⟩

theorem all_of_notMem {key : String} (unknown : key ∉ fs.keys) {P : (α : Type) → Field α → Prop} :
    fs.All fun α f => key = f.key → P α f := by
  induction αs with
  | nil => trivial
  | cons α αs ih =>
    obtain ⟨f, fs⟩ := fs
    obtain ⟨other, unknown⟩ := not_or.mp (List.mem_cons.not.mp unknown)
    exact ⟨fun same => (other same).elim, ih unknown⟩

theorem keys_members (fs : Fields αs) (vs : Values αs) :
    (fs.members vs).map Prod.fst = fs.keys := by
  induction αs with
  | nil => rfl
  | cons α αs ih =>
    obtain ⟨f, fs⟩ := fs
    obtain ⟨v, vs⟩ := vs
    exact congrArg (f.key :: ·) (ih fs vs)

variable {sp : Spacing} (blank : sp.Blank) (depth : Nat) (lawful : fs.Lawful)
  (nodup : fs.keys.Nodup)
include lawful nodup

theorem members_parse {vs : Values αs} {m : String × Value} (mem : m ∈ fs.members vs) :
    fs.All fun _ f => m.1 = f.key →
      ∃ v, f.reader.whole (Member.written blank depth m).value = .ok v := by
  induction αs with
  | nil => trivial
  | cons α αs ih =>
    obtain ⟨f, fs⟩ := fs
    obtain ⟨v, vs⟩ := vs
    obtain ⟨head, tail⟩ := lawful
    obtain ⟨unique, nodup⟩ := List.nodup_cons.mp nodup
    obtain rfl | mem := List.mem_cons.mp mem
    · exact ⟨fun _ => ⟨v, head.reads_back blank (depth + 1) v⟩, all_of_notMem unique⟩
    · refine ⟨fun same => (unique ?_).elim, ih tail nodup mem⟩
      rw [← same, ← keys_members fs vs]
      exact List.mem_map_of_mem mem

/-- Every field gets its value, whatever other members stand in front. -/
theorem written_holds (vs : Values αs) (ms : List Member) (others : ∀ m ∈ ms, m.key ∉ fs.keys) :
    fs.Holds (ms ++ (fs.members vs).map (Member.written blank depth)) vs := by
  induction αs generalizing ms with
  | nil => trivial
  | cons α αs ih =>
    obtain ⟨f, fs⟩ := fs
    obtain ⟨v, vs⟩ := vs
    obtain ⟨head, tail⟩ := lawful
    obtain ⟨unique, nodup⟩ := List.nodup_cons.mp nodup
    have notThis (m : Member) (mem : m ∈ ms) : m.key ≠ f.key :=
      fun same => others m mem (List.mem_cons.mpr (.inl same))
    constructor
    · have given := Field.given_append_cons (m := Member.written blank depth (f.key, f.write v))
        notThis rfl (head.reads_back blank (depth + 1) v)
        ((Fields.members fs vs).map (Member.written blank depth))
      exact congrArg (Option.or · f.absent) given
    · have later := ih tail nodup vs (ms ++ [Member.written blank depth (f.key, f.write v)]) ?_
      · rwa [← List.append_cons] at later
      · intro m mem
        obtain mem | mem := List.mem_append.mp mem
        · exact fun known => others m mem (List.mem_cons_of_mem _ known)
        · rw [List.mem_singleton.mp mem]
          exact unique

end Fields

theorem object_chars (sp : Spacing) (depth : Nat) (ms : List (String × Value)) :
    ∃ s, (Value.object ms).chars sp depth = '\x7b' :: s := by
  cases ms with
  | nil => exact ⟨_, rfl⟩
  | cons m ms => exact ⟨_, by rfl⟩

namespace Record

variable {αs : List Type} {r : Record S αs}

theorem reader_leading {b : List Char} (blank : Blank b) (s : List Char) :
    r.reader.run (b ++ s) = r.reader.run s := by
  have same : (Reader.afterBlanks r.readValues readValues_le).run (b ++ s) =
      (Reader.afterBlanks r.readValues readValues_le).run s :=
    Reader.afterBlanks_leading readValues_le blank s
  simp only [reader, Reader.map, same]

theorem nonNull : @NonNull S r.wire := by
  refine @NonNull.mk S r.wire fun sp depth s => ?_
  obtain ⟨t, text⟩ := object_chars sp depth (r.fields.members (r.parts s))
  show (Value.chars sp depth (.object _)).head? ≠ _
  rw [text]
  exact (nomatch ·)

/-- A record of which every value is read back from its fields. -/
structure Lawful (r : Record S αs) : Prop where
  fields : r.fields.Lawful
  nodup : r.fields.keys.Nodup
  built : ∀ s, Values.apply r.build (r.parts s) = s

namespace Lawful

variable (lawful : r.Lawful)
include lawful

theorem persistent : r.fields.Persistent := lawful.fields.imp fun _ _ f => f.persistent

theorem whole_write {sp : Spacing} (blank : sp.Blank) (depth : Nat) (s : S) :
    r.reader.whole ((r.write s).chars sp depth) = .ok s := by
  have keys : ((r.fields.members (r.parts s)).map (Member.written blank depth)).map Member.key =
      r.fields.keys := by
    rw [List.map_map, ← Fields.keys_members r.fields (r.parts s)]
    rfl
  have once : Once r.fields.keys ((r.fields.members (r.parts s)).map (Member.written blank depth)) := by
    intro key _
    rw [keys]
    exact List.nodup_iff_count.mp lawful.nodup key
  have fits : ∀ m ∈ (r.fields.members (r.parts s)).map (Member.written blank depth),
      m.Fits r.fields := by
    intro m mem
    obtain ⟨m', mem', rfl⟩ := List.mem_map.mp mem
    refine ⟨Fields.members_parse blank depth lawful.fields lawful.nodup mem',
      fun unknown => (unknown ?_).elim⟩
    rw [← keys]
    exact List.mem_map_of_mem mem
  have holds := Fields.written_holds blank depth lawful.fields lawful.nodup (r.parts s) [] nofun
  rw [write, ← chars_written blank depth, whole_object lawful.persistent lawful.nodup fits once]
  refine (congrArg (Except.map _) (Fields.complete_of_holds holds)).trans ?_
  exact congrArg Except.ok (lawful.built s)

theorem wire : @LawfulWire S r.wire :=
  let := r.wire
  { persistent := reader_persistent lawful.persistent
    empty := rfl
    leading := reader_leading
    opens := fun sp depth s => by
      obtain ⟨t, text⟩ := object_chars sp depth (r.fields.members (r.parts s))
      exact ⟨_, t, text, rfl, by decide⟩
    reads_back := fun blank depth s => lawful.whole_write blank depth s }

end Lawful

end Record

end Spindle.Json
