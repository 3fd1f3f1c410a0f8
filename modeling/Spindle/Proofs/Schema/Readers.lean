import Spindle.Proofs.Json.Compact
import Spindle.Proofs.Json.Integers
import Spindle.Proofs.Json.ListItems
import Spindle.Proofs.Schema.Conformance

/-!
# Readers and schemas

A reader that takes every value of a shape, and how readers of records, lists and optional values
take theirs when the readers of the parts do.
-/

namespace Spindle

open Json

namespace Schema

/-- Every value of the shape is read from its text. -/
def Accepts (definitions : List Definition) (shape : Shape) (r : Reader α) : Prop :=
  ∀ v depth, v.Proper Literal.WellFormed → Fits definitions shape v →
    ∃ a, r.whole (v.chars .compact depth) = .ok a

variable {definitions : List Definition}

/-! ### Strings and integers -/

theorem accepts_string : Accepts definitions .string (Wire.reader : Reader String) := by
  intro v depth _ fits
  obtain ⟨s⟩ := fits
  exact ⟨s, LawfulWire.reads_back Spacing.compact_blank depth s⟩

theorem accepts_boolean : Accepts definitions .boolean (Wire.reader : Reader Bool) := by
  intro v depth _ fits
  cases fits with
  | boolean b => exact ⟨b, LawfulWire.reads_back Spacing.compact_blank depth b⟩

theorem accepts_integer {w : Word} {convert : Int → Option α} {value : α → Int}
    (converts : w.Converts convert value) :
    Accepts definitions (.integer w) (Json.integer w.name convert) := by
  intro v depth proper fits
  cases fits with
  | @integer _ l plain range =>
    cases proper with
    | number wellFormed => exact (converts.readsExactly.accepts l wellFormed).mpr ⟨plain, range⟩

theorem accepts_uint64 : Accepts definitions (.integer .uint64) (Wire.reader : Reader UInt64) :=
  accepts_integer Word.converts_uint64

theorem accepts_uint32 : Accepts definitions (.integer .uint32) (Wire.reader : Reader UInt32) :=
  accepts_integer Word.converts_uint32

theorem accepts_int32 : Accepts definitions (.integer .int32) (Wire.reader : Reader Int32) :=
  accepts_integer Word.converts_int32

/-! ### Tags -/

section
variable {t : Tags α} {name : String} {d : Definition} {listed : List String}
  (found : definitions.find? (·.name = name) = some d)
include found

theorem accepts_tags (body : d.body = .tags listed)
    (known : ∀ tag ∈ listed, ∃ a, t.ofTag tag = .ok a) :
    Accepts definitions (.named name) t.reader := by
  intro v depth _ fits
  cases fits with
  | named found' suits =>
    obtain rfl := Option.some.inj (found.symm.trans found')
    rw [body] at suits
    cases suits with
    | tags mem =>
      obtain ⟨a, known⟩ := known _ mem
      exact ⟨a, Tags.whole_write known⟩

theorem accepts_tagsOr {other description : String}
    (body : d.body = .tagsOr listed other description) {rest : α}
    (every : t.other = some rest) : Accepts definitions (.named name) t.reader := by
  intro v depth _ fits
  cases fits with
  | named found' suits =>
    obtain rfl := Option.some.inj (found.symm.trans found')
    rw [body] at suits
    cases suits with
    | @tagsOr _ _ _ tag _ =>
      obtain ⟨a, known⟩ : ∃ a, t.ofTag tag = .ok a := by
        rw [Tags.ofTag, every]
        cases t.listed.lookup tag with
        | some a => exact ⟨a, rfl⟩
        | none => exact ⟨rest, rfl⟩
      exact ⟨a, Tags.whole_write known⟩

end

/-! ### Lists and optional values -/

section
variable [Wire α] {item : Shape} (accepts : Accepts definitions item (Wire.reader : Reader α))
include accepts

theorem eachReads_of_fits {vs : List Value} (proper : ∀ v ∈ vs, v.Proper Literal.WellFormed)
    (fits : ∀ v ∈ vs, Fits definitions item v) (depth : Nat) :
    ∃ xs : List α, EachReads (vs.map (Value.chars .compact depth)) xs := by
  refine exists_forall₂ fun t mem => ?_
  obtain ⟨v, listed, rfl⟩ := List.mem_map.mp mem
  exact accepts v depth (proper v listed) (fits v listed)

theorem accepts_list [ListItem α] :
    Accepts definitions (.list item) (Wire.reader : Reader (List α)) := by
  intro v depth proper fits
  cases fits with
  | list items =>
    cases proper with
    | array proper =>
      obtain ⟨xs, reads⟩ := eachReads_of_fits accepts proper items (depth + 1)
      refine ⟨xs, Reader.whole_eq_ok.mpr ⟨[], .nil, ?_⟩⟩
      rw [Value.chars_array_compact]
      exact list_accepts reads .nil .nil []

theorem accepts_nullable :
    Accepts definitions (.nullable item) (Wire.reader : Reader (Option α)) := by
  intro v depth proper fits
  by_cases null : v = .null
  · subst null
    exact ⟨none, rfl⟩
  · cases fits with
    | null => cases null rfl
    | value fits =>
      obtain ⟨x, reads⟩ := accepts v depth proper fits
      obtain ⟨b, blank, run⟩ := Reader.whole_eq_ok.mp reads
      obtain ⟨c, s, text, notBlank, notN⟩ := proper.head_ne null depth
      have start : skipBlank (v.chars .compact depth) = v.chars .compact depth := by
        rw [text, skipBlank_cons notBlank]
      have other : (v.chars .compact depth).head? ≠ some 'n' := by
        rw [text]
        exact fun first => notN (Option.some.inj first)
      refine ⟨some x, Reader.whole_eq_ok.mpr ⟨b, blank, ?_⟩⟩
      show readOption Wire.reader _ = _
      rw [readOption_of_other start other, run]

end

/-! ### Records -/

/-- The property of a field's key accepts what the field reads; an object that may lack the property
may lack the field. -/
def Described (definitions : List Definition) (ps : List Property) (f : Json.Field α) : Prop :=
  ∃ p, ps.find? (·.key = f.key) = some p ∧ Accepts definitions p.shape f.reader ∧
    (f.absent = none → p.default.isNone)

section
variable [Wire α] {ps : List Property} {key : String} {p : Property}
  (found : ps.find? (·.key = key) = some p)
  (accepts : Accepts definitions p.shape (Wire.reader : Reader α))
include found accepts

theorem described_required (asked : p.default.isNone) :
    Described definitions ps (Json.Field.required key : Json.Field α) :=
  ⟨p, found, accepts, fun _ => asked⟩

theorem described_defaulted (default : α) :
    Described definitions ps (Json.Field.defaulted key default) := ⟨p, found, accepts, nofun⟩

end

theorem exists_of_mem_required {αs : List Type} {fs : Fields αs}
    {P : (α : Type) → Json.Field α → Prop} (all : fs.All P) {key : String}
    (mem : key ∈ fs.required) : ∃ α, ∃ f : Json.Field α, f.key = key ∧ f.absent = none ∧ P α f := by
  induction αs with
  | nil => cases mem
  | cons α αs ih =>
    obtain ⟨f, fs⟩ := fs
    rw [Fields.required] at mem
    cases absent : f.absent with
    | some d =>
      rw [absent] at mem
      exact ih all.2 mem
    | none =>
      rw [absent] at mem
      obtain rfl | mem := List.mem_cons.mp mem
      · exact ⟨α, f, rfl, absent, all.1⟩
      · exact ih all.2 mem

section
variable {αs : List Type} {r : Record S αs} (lawful : r.Lawful) {ps : List Property}
  (described : r.fields.All fun _ f => Described definitions ps f)
include lawful described

/-- An object is read when the properties describe its fields. -/
theorem record_accepts {v : Value} (proper : v.Proper Literal.WellFormed)
    (suits : Suits definitions (.record ps) v) (depth : Nat) :
    ∃ s, r.reader.whole (v.chars .compact depth) = .ok s := by
  cases suits with
  | @record _ ms required properties =>
    cases proper with
    | object distinct values =>
      have blank := Spacing.compact_blank
      have keys : (ms.map (Member.written blank depth)).map Member.key = ms.map Prod.fst := by
        rw [List.map_map]
        rfl
      have fits : ∀ m ∈ (ObjectText.written blank depth ms).members, m.Fits r.fields := by
        intro m mem
        obtain ⟨m, listed, rfl⟩ := List.mem_map.mp mem
        constructor
        · refine described.imp fun α f ⟨p, found, accepts, _⟩ same => ?_
          have key : m.1 = f.key := same
          exact accepts m.2 (depth + 1) (values m listed) (properties m listed p (key ▸ found))
        · exact fun _ => (values m listed).isJson (depth + 1)
      have once : Once r.fields.keys (ObjectText.written blank depth ms).members := by
        intro key _
        rw [ObjectText.written, keys]
        exact List.nodup_iff_count.mp distinct key
      have present : ∀ key ∈ r.fields.required,
          key ∈ (ObjectText.written blank depth ms).members.map Member.key := by
        intro key mem
        obtain ⟨α, f, rfl, absent, p, found, -, asked⟩ := exists_of_mem_required described mem
        have same : p.key = f.key := by simpa using List.find?_some found
        rw [ObjectText.written, keys, ← same]
        exact required p (List.mem_of_find?_eq_some found) (asked absent)
      obtain ⟨vs, holds⟩ := Fields.holds_of_present (fun m mem => (fits m mem).known) present
      refine ⟨Values.apply r.build vs, ?_⟩
      rw [← chars_written blank depth, Record.whole_object lawful.persistent lawful.nodup fits once,
        Fields.complete_of_holds holds]
      rfl

theorem accepts_record {name : String} {d : Definition}
    (found : definitions.find? (·.name = name) = some d) (body : d.body = .record ps) :
    Accepts definitions (.named name) r.reader := by
  intro v depth proper fits
  cases fits with
  | named found' suits =>
    obtain rfl := Option.some.inj (found.symm.trans found')
    exact record_accepts lawful described proper (body ▸ suits) depth

end

end Schema

end Spindle
