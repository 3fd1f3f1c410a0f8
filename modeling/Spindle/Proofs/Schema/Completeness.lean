import Mathlib.Data.List.Forall2
import Spindle.Proofs.Schema.Readers

/-!
# What is described is valid

The converse of `Conformance`: a value of the shape that a schema describes follows the text of the
schema. With each part of a value comes a number of schemas from which on the answer stays the same,
so that the answers of the parts can be put together.
-/

namespace Spindle.Schema

open Json (Value Literal)

/-! ### Answers that stay -/

/-- Enough schemas inside one another always give the same answer. -/
def Settles (root schema v : Value) (answer : Bool) : Prop :=
  ∃ enough, ∀ fuel, enough ≤ fuel → follows root fuel schema v = some answer

section
variable {root schema v : Value}

theorem Settles.valid (settles : Settles root schema v true) : Valid root schema v := by
  obtain ⟨enough, answer⟩ := settles
  exact ⟨enough, answer enough (Nat.le_refl enough)⟩

theorem Settles.referred {reference target : Value} {answer : Bool}
    (refers : keyword schema "$ref" = some reference)
    (found : resolve root reference = some target) (settles : Settles root target v answer) :
    Settles root schema v answer := by
  obtain ⟨enough, answer⟩ := settles
  refine ⟨enough + 1, fun fuel le => ?_⟩
  obtain ⟨fuel, rfl⟩ := Nat.exists_eq_add_of_le' (Nat.le_of_add_left_le le)
  rw [follows_reference refers, found]
  exact answer fuel (Nat.le_of_succ_le_succ le)

theorem Settles.asserted {members : List (String × Value)} {answer : Bool}
    (asserts : Asserts schema members) (settles : Settles root (.object members) v answer) :
    Settles root schema v answer := by
  obtain ⟨enough, answer⟩ := settles
  exact ⟨enough, fun fuel le => (asserts.follows_eq root fuel).trans (answer fuel le)⟩

theorem settles_count {places : List (Value × Value)} {answers : List Bool}
    (settled : List.Forall₂ (fun p answer => Settles root p.1 p.2 answer) places answers) :
    ∃ enough, ∀ fuel, enough ≤ fuel →
      count (places.map fun p => follows root fuel p.1 p.2) = some (answers.count true) := by
  induction settled with
  | nil => exact ⟨0, fun _ _ => rfl⟩
  | @cons p answer places answers first _ ih =>
    obtain ⟨enough, first⟩ := first
    obtain ⟨enough', others⟩ := ih
    refine ⟨max enough enough', fun fuel le => ?_⟩
    rw [List.map_cons]
    refine count_cons.mpr ⟨answer, _, first fuel (by omega), others fuel (by omega), ?_⟩
    cases answer <;> simp

theorem settles_choices {schemas : List Value} {answers : List Bool}
    (settled : List.Forall₂ (fun s answer => Settles root s v answer) schemas answers) :
    ∃ enough, ∀ fuel, enough ≤ fuel →
      count (schemas.map fun s => follows root fuel s v) = some (answers.count true) := by
  have places : List.Forall₂ (fun p answer => Settles root p.1 p.2 answer)
      (schemas.map (·, v)) answers := List.forall₂_map_left_iff.mpr settled
  obtain ⟨enough, counted⟩ := settles_count places
  refine ⟨enough, fun fuel le => ?_⟩
  rw [← counted fuel le, List.map_map]
  rfl

/-- A schema that is not a reference is answered when the schemas inside it are. -/
theorem settles_of_parts (alone : keyword schema "$ref" = none) {any one : List Bool}
    (inner : ∀ p ∈ parts schema v, Settles root p.1 p.2 true)
    (anyOf : List.Forall₂ (fun s answer => Settles root s v answer) (choices schema "anyOf") any)
    (oneOf : List.Forall₂ (fun s answer => Settles root s v answer) (choices schema "oneOf") one) :
    Settles root schema v (holds schema v && (any = [] || 0 < any.count true) &&
      (one = [] || one.count true = 1)) := by
  have all : List.Forall₂ (fun p answer => Settles root p.1 p.2 answer) (parts schema v)
      ((parts schema v).map fun _ => true) := by
    rw [List.forall₂_map_right_iff, List.forall₂_same]
    exact inner
  have noAny : choices schema "anyOf" = [] ↔ any = [] := by
    rw [← List.length_eq_zero_iff, anyOf.length_eq, List.length_eq_zero_iff]
  have noOne : choices schema "oneOf" = [] ↔ one = [] := by
    rw [← List.length_eq_zero_iff, oneOf.length_eq, List.length_eq_zero_iff]
  obtain ⟨enough, inner⟩ := settles_count all
  obtain ⟨enough', some⟩ := settles_choices anyOf
  obtain ⟨enough'', only⟩ := settles_choices oneOf
  refine ⟨max (max enough enough') enough'' + 1, fun fuel le => ?_⟩
  obtain ⟨fuel, rfl⟩ := Nat.exists_eq_add_of_le' (Nat.le_of_add_left_le le)
  simp [follows, alone, inner fuel (by omega), some fuel (by omega), only fuel (by omega), noAny,
    noOne]

theorem settles_of_holds (alone : keyword schema "$ref" = none)
    (inner : ∀ p ∈ parts schema v, Settles root p.1 p.2 true)
    (anyOf : choices schema "anyOf" = []) (oneOf : choices schema "oneOf" = []) :
    Settles root schema v (holds schema v) := by
  have any : List.Forall₂ (fun s answer => Settles root s v answer) (choices schema "anyOf") [] :=
    anyOf ▸ .nil
  have one : List.Forall₂ (fun s answer => Settles root s v answer) (choices schema "oneOf") [] :=
    oneOf ▸ .nil
  simpa using settles_of_parts alone inner any one

end

/-! ### Definitions that can be told -/

/-- The definitions that a shape names. -/
def Shape.names : Shape → List String
  | list item => item.names
  | named name => [name]
  | nullable s => s.names
  | string | boolean | integer _ => []

/-- What is named is there, and a tag with a description of its own is not listed with the others. -/
def Body.Closed (definitions : List Definition) : Body → Prop
  | record ps => ∀ p ∈ ps, ∀ name ∈ p.shape.names, (definitions.find? (·.name = name)).isSome
  | tags _ => True
  | tagsOr listed other _ => other ∉ listed

instance (definitions : List Definition) (b : Body) : Decidable (b.Closed definitions) :=
  match b with
  | .record ps => inferInstanceAs (Decidable (∀ p ∈ ps, ∀ name ∈ p.shape.names, _))
  | .tags _ => .isTrue trivial
  | .tagsOr listed other _ => inferInstanceAs (Decidable (other ∉ listed))

/-! ### Null -/

section
variable {root : Value}

theorem settles_tags (listed : List String) (v : Value) :
    Settles root (.object (tagMembers listed)) v (holds (.object (tagMembers listed)) v) := by
  apply settles_of_holds rfl ?_ rfl rfl
  cases v <;> nofun

/-- Either the tag is listed or it is the other one, not both. -/
theorem settles_tagsOr (listed : List String) (other description : String) (v : Value) :
    Settles root (.object (Body.tagsOr listed other description).members) v
      (holds (.object (tagMembers listed)) v != holds (.object (tagMembers [other])) v) := by
  have described : Settles root _ v (holds (.object (tagMembers [other])) v) :=
    (settles_tags [other] v).asserted (asserts_described description (tagMembers [other]))
  have one : List.Forall₂ (fun s answer => Settles root s v answer)
      (choices (.object (Body.tagsOr listed other description).members) "oneOf")
      [holds (.object (tagMembers listed)) v, holds (.object (tagMembers [other])) v] :=
    .cons (settles_tags listed v) (.cons described .nil)
  have inner : ∀ p ∈ parts (.object (Body.tagsOr listed other description).members) v,
      Settles root p.1 p.2 true := by cases v <;> nofun
  have settles := settles_of_parts rfl inner .nil one
  have passed : holds (.object (Body.tagsOr listed other description).members) v = true := by
    cases v <;> rfl
  rw [passed] at settles
  generalize holds (.object (tagMembers listed)) v = yes, holds (.object (tagMembers [other])) v = no
    at settles ⊢
  cases yes <;> cases no <;> exact settles

theorem settles_null_body (body : Body) :
    ∃ answer, Settles root (.object body.members) .null answer := by
  cases body with
  | record ps => exact ⟨_, settles_of_holds rfl nofun rfl rfl⟩
  | tags listed => exact ⟨_, settles_tags listed .null⟩
  | tagsOr listed other description => exact ⟨_, settles_tagsOr listed other description .null⟩

end

section
variable {s : Schema}

theorem settles_reference {name : String} {d : Definition} {v : Value} {answer : Bool}
    (found : s.definitions.find? (·.name = name) = some d)
    (settles : Settles s.value (.object d.body.members) v answer) :
    Settles s.value (Shape.reference name) v answer :=
  .referred rfl ((resolve_reference s name).trans (by rw [found]; rfl)) (settles.asserted d.asserts)

theorem settles_nullType (v : Value) :
    Settles s.value (.object [("type", .string "null")]) v
      (holds (.object [("type", .string "null")]) v) := by
  apply settles_of_holds rfl ?_ rfl rfl
  cases v <;> nofun

/-- Beside null, a named value may be null. -/
theorem settles_anyOf {name : String} {v : Value} {answer : Bool}
    (settles : Settles s.value (Shape.reference name) v answer) :
    Settles s.value (.object ((Shape.named name).members true)) v
      (answer || holds (.object [("type", .string "null")]) v) := by
  have any : List.Forall₂ (fun schema answer => Settles s.value schema v answer)
      (choices (.object ((Shape.named name).members true)) "anyOf")
      [answer, holds (.object [("type", .string "null")]) v] :=
    .cons settles (.cons (settles_nullType v) .nil)
  have inner : ∀ p ∈ parts (.object ((Shape.named name).members true)) v,
      Settles s.value p.1 p.2 true := by cases v <;> nofun
  have settles := settles_of_parts rfl inner any .nil
  have passed : holds (.object ((Shape.named name).members true)) v = true := by cases v <;> rfl
  rw [passed] at settles
  generalize holds (.object [("type", .string "null")]) v = null at settles ⊢
  cases answer <;> cases null <;> exact settles

theorem settles_null_shape {shape : Shape}
    (known : ∀ name ∈ shape.names, (s.definitions.find? (·.name = name)).isSome) :
    Settles s.value (.object (shape.members true)) .null true := by
  induction shape with
  | string => exact settles_of_holds rfl nofun rfl rfl
  | boolean => exact settles_of_holds rfl nofun rfl rfl
  | integer w => cases w <;> exact settles_of_holds rfl nofun rfl rfl
  | list item => exact settles_of_holds rfl nofun rfl rfl
  | named name =>
    obtain ⟨d, found⟩ := Option.isSome_iff_exists.mp (known name List.mem_cons_self)
    obtain ⟨answer, settles⟩ := settles_null_body d.body
    have null := settles_anyOf (settles_reference found settles)
    rwa [show holds (.object [("type", .string "null")]) .null = true from rfl, Bool.or_true] at null
  | nullable shape ih => exact ih known

end

/-! ### Tags, integers and records by themselves -/

theorem holds_tag (listed : List String) (tag : String) :
    holds (.object (tagMembers listed)) (.string tag) = decide (tag ∈ listed) := by
  have strings : strings (.array (listed.map .string)) = listed :=
    (strings_map listed id).trans (List.map_id listed)
  have listed' : enumHolds (.object (tagMembers listed)) (.string tag) = decide (tag ∈ listed) := by
    show (Schema.strings (.array (listed.map .string))).contains tag = _
    rw [strings, List.contains_eq_mem]
  have typed : typeHolds (.object (tagMembers listed)) (.string tag) = true := rfl
  have format : formatHolds (.object (tagMembers listed)) (.string tag) = true := rfl
  have minimum : minimumHolds (.object (tagMembers listed)) (.string tag) = true := rfl
  have required : requiredHolds (.object (tagMembers listed)) (.string tag) = true := rfl
  simp only [holds, listed', typed, format, minimum, required, Bool.true_and, Bool.and_true]

theorem minimum_holds {w : Word} {l : Literal} (range : w.Holds l.value) (null : Bool) :
    minimumHolds (.object ((Shape.integer w).members null)) (.number l) = true := by
  cases w with
  | int32 => rfl
  | uint64 | uint32 =>
    have zero : Literal.value ⟨false, ['0'], some ['0'], none⟩ = 0 := by
      simp [Literal.value, Json.digitsValue, Nat.ofDigitChars]
    have least : (0 : ℚ) ≤ l.value := by
      have least := range.1
      simpa [Word.least] using least
    show decide (Literal.value _ ≤ l.value) = true
    rw [zero]
    exact decide_eq_true least

theorem holds_integer {w : Word} {l : Literal} (plain : l.IsPlain) (range : w.Holds l.value)
    (null : Bool) : holds (.object ((Shape.integer w).members null)) (.number l) = true := by
  have isInteger : "integer" ∈ types (.number l) := by
    simp [types, plain.value_eq]
  have typed : typeHolds (.object ((Shape.integer w).members null)) (.number l) = true := by
    have type : allowed (.object ((Shape.integer w).members null)) =
        some (if null then ["integer", "null"] else ["integer"]) := allowed_typeMember null _ _
    rw [typeHolds, type]
    cases null <;> simp [isInteger]
  have format : formatHolds (.object ((Shape.integer w).members null)) (.number l) = true := by
    have format : keyword (.object ((Shape.integer w).members null)) "format" =
        some (.string w.format) := rfl
    have word : Word.ofFormat? w.format = some w := by cases w <;> rfl
    simpa [formatHolds, format, word] using range
  have others : enumHolds (.object ((Shape.integer w).members null)) (.number l) = true ∧
      requiredHolds (.object ((Shape.integer w).members null)) (.number l) = true := by
    cases w <;> exact ⟨rfl, rfl⟩
  simp only [holds, typed, others.1, format, minimum_holds range, others.2, Bool.and_true]

theorem lookup_isSome {key : String} {members : List (String × α)}
    (present : key ∈ members.map Prod.fst) : (members.lookup key).isSome := by
  obtain ⟨m, mem, rfl⟩ := List.mem_map.mp present
  by_contra missing
  have none := Option.not_isSome_iff_eq_none.mp missing
  simpa using List.lookup_eq_none_iff.mp none m mem

theorem holds_record {ps : List Property} {ms : List (String × Value)}
    (required : ∀ p ∈ ps, p.default.isNone → p.key ∈ ms.map Prod.fst) :
    holds (.object (Body.record ps).members) (.object ms) = true := by
  have keys : keyword (.object (Body.record ps).members) "required" =
      some (.array ((ps.filter (·.default.isNone)).map (.string ·.key))) := rfl
  have present : requiredHolds (.object (Body.record ps).members) (.object ms) = true := by
    simp only [requiredHolds, keys, strings_map, List.all_eq_true, List.mem_map, List.mem_filter]
    rintro key ⟨p, ⟨mem, asked⟩, rfl⟩
    exact lookup_isSome (required p mem asked)
  rw [holds, present, Bool.and_true]
  rfl

/-! ### Values of shapes -/

section
variable {s : Schema}

theorem integer_settles {w : Word} {l : Literal} (plain : l.IsPlain) (range : w.Holds l.value)
    (null : Bool) : Settles s.value (.object ((Shape.integer w).members null)) (.number l) true := by
  rw [← holds_integer plain range null]
  cases w <;> exact settles_of_holds rfl nofun rfl rfl

theorem list_settles {item : Shape} {vs : List Value}
    (items : ∀ v ∈ vs, Settles s.value (.object (item.members false)) v true) (null : Bool) :
    Settles s.value (.object ((Shape.list item).members null)) (.array vs) true := by
  have inner : ∀ p ∈ parts (.object ((Shape.list item).members null)) (.array vs),
      Settles s.value p.1 p.2 true := by
    intro p part
    obtain ⟨v, mem, rfl⟩ := List.mem_map.mp part
    exact items v mem
  cases null <;> exact settles_of_holds rfl inner rfl rfl

theorem named_settles {name : String} {d : Definition} {v : Value}
    (found : s.definitions.find? (·.name = name) = some d)
    (settles : Settles s.value (.object d.body.members) v true) (null : Bool) :
    Settles s.value (.object ((Shape.named name).members null)) v true := by
  have refers := settles_reference found settles
  cases null with
  | false => exact refers
  | true => exact settles_anyOf refers

theorem record_settles {ps : List Property} {ms : List (String × Value)}
    (required : ∀ p ∈ ps, p.default.isNone → p.key ∈ ms.map Prod.fst)
    (properties : ∀ m ∈ ms, ∀ p, ps.find? (·.key = m.1) = some p →
      Settles s.value (.object (p.shape.members false)) m.2 true) :
    Settles s.value (.object (Body.record ps).members) (.object ms) true := by
  have schemas : keyword (.object (Body.record ps).members) "properties" =
      some (.object (ps.map fun p => (p.key, p.schema))) := rfl
  rw [← holds_record required]
  refine settles_of_holds rfl (fun part mem => ?_) rfl rfl
  simp only [parts, schemas, find?_map_lookup, List.mem_filterMap, Option.map_map,
    Option.map_eq_some_iff] at mem
  obtain ⟨m, mem, p, found, rfl⟩ := mem
  exact (properties m mem p found).asserted p.asserts

theorem tags_settles {listed : List String} {tag : String} (mem : tag ∈ listed) :
    Settles s.value (.object (Body.tags listed).members) (.string tag) true := by
  have settles : Settles s.value _ _ _ := settles_tags listed (.string tag)
  rwa [holds_tag, decide_eq_true mem] at settles

theorem tagsOr_settles {listed : List String} {other tag : String} (apart : other ∉ listed)
    (mem : tag ∈ listed ∨ tag = other) (description : String) :
    Settles s.value (.object (Body.tagsOr listed other description).members) (.string tag) true := by
  have settles : Settles s.value _ _ _ := settles_tagsOr listed other description (.string tag)
  rw [holds_tag, holds_tag] at settles
  obtain listed' | rfl := mem
  · have notOther : tag ≠ other := fun same => apart (same ▸ listed')
    simpa [listed', notOther] using settles
  · simpa [apart] using settles

mutual

theorem Fits.settles (closed : ∀ d ∈ s.definitions, d.body.Closed s.definitions) {shape : Shape}
    {v : Value} (fits : Fits s.definitions shape v)
    (known : ∀ name ∈ shape.names, (s.definitions.find? (·.name = name)).isSome) (null : Bool) :
    Settles s.value (.object (shape.members null)) v true :=
  match fits with
  | .string _ => by cases null <;> exact settles_of_holds rfl nofun rfl rfl
  | .boolean _ => by cases null <;> exact settles_of_holds rfl nofun rfl rfl
  | .integer plain range => integer_settles plain range null
  | .list items => list_settles (fun v mem => (items v mem).settles closed known false) null
  | .named found suits =>
    named_settles found (suits.settles closed (closed _ (List.mem_of_find?_eq_some found))) null
  | .null _ => settles_null_shape known
  | .value fits => fits.settles closed known true

theorem Suits.settles (closed : ∀ d ∈ s.definitions, d.body.Closed s.definitions) {body : Body}
    {v : Value} (suits : Suits s.definitions body v) (self : body.Closed s.definitions) :
    Settles s.value (.object body.members) v true :=
  match suits with
  | .record required properties =>
    record_settles required fun m mem p found =>
      (properties m mem p found).settles closed (self p (List.mem_of_find?_eq_some found)) false
  | .tags mem => tags_settles mem
  | .tagsOr mem => tagsOr_settles self mem _

end

/-- What is as the schema describes follows its text. -/
theorem valid_of_suits {v : Value} (closed : ∀ d ∈ s.definitions, d.body.Closed s.definitions)
    (self : s.root.body.Closed s.definitions) (suits : Suits s.definitions s.root.body v) :
    Valid s.value s.value v :=
  ((suits.settles closed self).asserted (asserts_root s)).valid

end

end Spindle.Schema
