import Mathlib.Data.List.Basic
import Spindle.Proofs.Schema.Validation

/-!
# What a schema describes

A value that follows the text of a schema has the shape that the schema describes: an induction on
the schemas that are passed on the way.
-/

namespace Spindle.Schema

open Json (Value Literal)

/-! ### Shapes and their values -/

mutual

/-- A value of a shape, with the definitions that it may name. -/
inductive Fits (definitions : List Definition) : Shape → Value → Prop where
  | string (s : String) : Fits definitions .string (.string s)
  | boolean (b : Bool) : Fits definitions .boolean (.boolean b)
  | integer {w : Word} {l : Literal} (plain : l.IsPlain) (range : w.Holds l.value) :
      Fits definitions (.integer w) (.number l)
  | list {item : Shape} {vs : List Value} (items : ∀ v ∈ vs, Fits definitions item v) :
      Fits definitions (.list item) (.array vs)
  | named {name : String} {d : Definition} {v : Value}
      (found : definitions.find? (·.name = name) = some d) (suits : Suits definitions d.body v) :
      Fits definitions (.named name) v
  | null (s : Shape) : Fits definitions (.nullable s) .null
  | value {s : Shape} {v : Value} (fits : Fits definitions s v) : Fits definitions (.nullable s) v

/-- A value that a definition describes. -/
inductive Suits (definitions : List Definition) : Body → Value → Prop where
  | record {ps : List Property} {ms : List (String × Value)}
      (required : ∀ p ∈ ps, p.default.isNone → p.key ∈ ms.map Prod.fst)
      (properties : ∀ m ∈ ms, ∀ p, ps.find? (·.key = m.1) = some p → Fits definitions p.shape m.2) :
      Suits definitions (.record ps) (.object ms)
  | tags {listed : List String} {tag : String} (mem : tag ∈ listed) :
      Suits definitions (.tags listed) (.string tag)
  | tagsOr {listed : List String} {other description tag : String}
      (mem : tag ∈ listed ∨ tag = other) :
      Suits definitions (.tagsOr listed other description) (.string tag)

end

/-! ### Members of schemas -/

theorem lookup_of_forall_ne {key : String} {members : List (String × α)}
    (other : ∀ m ∈ members, key ≠ m.1) : members.lookup key = none := by
  simpa [List.lookup_eq_none_iff] using fun a b mem => other (a, b) mem

/-- Descriptions around the members are not among the keywords. -/
theorem asserts_among (front members after : List (String × Value))
    (descriptions : ∀ m ∈ front ++ after, m.1 ∉ assertions) :
    Asserts (.object (front ++ (members ++ after))) members where
  isObject := ⟨_, rfl⟩
  keywords key mem := by
    have none : (front ++ after).lookup key = none :=
      lookup_of_forall_ne fun m described same => descriptions m described (same ▸ mem)
    rw [List.lookup_append, Option.or_eq_none_iff] at none
    rw [keyword, List.lookup_append, List.lookup_append, none.1, none.2, Option.none_or,
      Option.or_none]

theorem asserts_behind (front members : List (String × Value))
    (descriptions : ∀ m ∈ front, m.1 ∉ assertions) :
    Asserts (.object (front ++ members)) members := by
  have among := asserts_among front members [] (by rwa [List.append_nil])
  rwa [List.append_nil] at among

theorem Property.asserts (p : Property) : Asserts p.schema (p.shape.members false) := by
  refine asserts_behind _ _ fun m mem => ?_
  obtain mem | mem := List.mem_append.mp mem
  · obtain ⟨d, -, rfl⟩ : ∃ d, p.description = some d ∧ ("description", .string d) = m := by
      simpa using mem
    exact (by decide : "description" ∉ assertions)
  · obtain ⟨v, -, rfl⟩ : ∃ v, p.default = some v ∧ ("default", v) = m := by simpa using mem
    exact (by decide : "default" ∉ assertions)

theorem asserts_described (description : String) (members : List (String × Value)) :
    Asserts (.object (("description", .string description) :: members)) members :=
  asserts_behind [("description", _)] members
    (List.forall_mem_singleton.mpr (by decide : "description" ∉ assertions))

theorem Definition.asserts (d : Definition) : Asserts (.object d.members) d.body.members :=
  asserts_behind [("description", _)] _
    (List.forall_mem_singleton.mpr (by decide : "description" ∉ assertions))

theorem asserts_root (s : Schema) : Asserts s.value s.root.body.members := by
  have descriptions : ∀ key ∈ ["$schema", "title", "description", "definitions"],
      key ∉ assertions := by decide
  rw [value, List.append_assoc]
  refine asserts_among [_, _, _] _ _ fun m mem => descriptions m.1 ?_
  exact List.mem_map_of_mem (f := Prod.fst) mem

theorem lookup_definitions (d : Definition) : d.members.lookup "definitions" = none := by
  obtain ⟨name, description, body⟩ := d
  cases body <;> rfl

/-- A reference leads to the definition of that name. -/
theorem resolve_reference (s : Schema) (name : String) :
    resolve s.value (.string ("#/definitions/" ++ name)) =
      (s.definitions.find? (·.name = name)).map fun d => .object d.members := by
  have definitions : keyword s.value "definitions" =
      some (.object (s.definitions.map fun d => (d.name, .object d.members))) := by
    rw [value, List.append_assoc, keyword, List.lookup_append, List.lookup_append,
      lookup_definitions]
    rfl
  have named (d : Definition) :
      decide ("#/definitions/" ++ d.name = "#/definitions/" ++ name) = decide (d.name = name) :=
    decide_eq_decide.mpr (String.append_right_inj _)
  unfold resolve
  rw [definitions]
  dsimp only
  rw [List.find?_map, Option.map_map]
  exact congrArg (fun found => (s.definitions.find? found).map fun d => Value.object d.members)
    (funext named)

/-! ### Steps -/

/-- A value follows a schema, and the numbers in it where an integer is asked for are plain. -/
structure FollowsPlainly (root : Value) (fuel : Nat) (schema v : Value) : Prop where
  valid : follows root fuel schema v = some true
  plain : ∀ l, AsksInteger root schema v l → l.IsPlain

namespace FollowsPlainly

variable {root schema v : Value} {fuel : Nat}

theorem asserted (valid : FollowsPlainly root fuel schema v) {members : List (String × Value)}
    (asserts : Asserts schema members) : FollowsPlainly root fuel (.object members) v where
  valid := asserts.follows_eq root fuel ▸ valid.valid
  plain l asks := valid.plain l (asserts.asksInteger asks)

variable (valid : FollowsPlainly root (fuel + 1) schema v)
include valid

theorem referred {reference : Value} (refers : keyword schema "$ref" = some reference) :
    ∃ target, resolve root reference = some target ∧ FollowsPlainly root fuel target v := by
  have answer := valid.valid
  rw [follows_reference refers, Option.bind_eq_some_iff] at answer
  obtain ⟨target, found, follows⟩ := answer
  exact ⟨target, found, follows, fun l asks => valid.plain l (.reference refers found asks)⟩

variable (alone : keyword schema "$ref" = none)
include alone

theorem holds : holds schema v = true := (passes_of_follows alone valid.valid).holds

theorem part {p : Value × Value} (mem : p ∈ parts schema v) : FollowsPlainly root fuel p.1 p.2 where
  valid := (passes_of_follows alone valid.valid).parts p mem
  plain l asks := valid.plain l (.part alone mem asks)

theorem choice {key : String} (mem : key ∈ ["anyOf", "oneOf"]) (some : choices schema key ≠ []) :
    ∃ s ∈ choices schema key, FollowsPlainly root fuel s v := by
  obtain ⟨s, listed, follows⟩ := (passes_of_follows alone valid.valid).choice key mem some
  refine ⟨s, listed, follows, fun l asks => valid.plain l (.choice alone ?_ asks)⟩
  obtain rfl | rfl : key = "anyOf" ∨ key = "oneOf" := by simpa using mem
  · exact List.mem_append_left _ listed
  · exact List.mem_append_right _ listed

end FollowsPlainly

/-! ### Types and lists of tags -/

theorem allowed_typeMember (null : Bool) (type : String) (ms : List (String × Value)) :
    allowed (.object (Shape.typeMember null type :: ms)) =
      some (if null then [type, "null"] else [type]) := by
  cases null <;> rfl

theorem eq_null_of_mem_types {v : Value} (null : "null" ∈ types v) : v = .null := by
  cases v <;> simp [types] at null ⊢

theorem type_of_holds (null : Bool) {type : String} {ms : List (String × Value)} {v : Value}
    (passed : holds (.object (Shape.typeMember null type :: ms)) v = true) :
    type ∈ types v ∨ null = true ∧ v = .null := by
  simp only [holds, Bool.and_eq_true] at passed
  have typed := passed.1.1.1.1
  rw [typeHolds, allowed_typeMember] at typed
  cases null with
  | false => simpa using typed
  | true =>
    obtain first | null : type ∈ types v ∨ "null" ∈ types v := by simpa using typed
    · exact .inl first
    · exact .inr ⟨rfl, eq_null_of_mem_types null⟩

theorem strings_map (xs : List α) (f : α → String) :
    strings (.array (xs.map fun x => .string (f x))) = xs.map f := by
  simp [strings, List.filterMap_map]

theorem tag_of_holds {listed : List String} {v : Value}
    (passed : holds (.object (tagMembers listed)) v = true) : ∃ tag ∈ listed, v = .string tag := by
  simp only [holds, Bool.and_eq_true] at passed
  have listed' : enumHolds (.object (tagMembers listed)) v = true := passed.1.1.1.2
  have enum : keyword (.object (tagMembers listed)) "enum" =
      some (.array (listed.map .string)) := rfl
  cases v with
  | string tag =>
    have strings : strings (.array (listed.map .string)) = listed :=
      (strings_map listed id).trans (List.map_id listed)
    simp only [enumHolds, enum, strings] at listed'
    exact ⟨tag, by simpa using listed', rfl⟩
  | _ => simp [enumHolds, enum] at listed'

/-! ### Shapes and definitions -/

/-- Values that follow what is written for a shape or a definition are of it. -/
structure Conforms (s : Schema) (fuel : Nat) : Prop where
  shape : ∀ (shape : Shape) (null : Bool) (v : Value),
    FollowsPlainly s.value fuel (.object (shape.members null)) v →
      Fits s.definitions shape v ∨ null = true ∧ v = .null
  body : ∀ (body : Body) (v : Value),
    FollowsPlainly s.value fuel (.object body.members) v → Suits s.definitions body v

section
variable {s : Schema} {fuel : Nat}

/-- Where a definition is named, the value is as described there. -/
theorem fits_of_reference (conforms : Conforms s fuel) {name : String} {v : Value}
    (valid : FollowsPlainly s.value (fuel + 1) (Shape.reference name) v) :
    Fits s.definitions (.named name) v := by
  obtain ⟨target, found, follows⟩ := valid.referred rfl
  rw [resolve_reference, Option.map_eq_some_iff] at found
  obtain ⟨d, found, rfl⟩ := found
  exact .named found (conforms.body d.body v (follows.asserted d.asserts))

/-- Where a definition or null is named, the value is as described there or null. -/
theorem fits_of_nullReference (earlier : ∀ f ≤ fuel, Conforms s f) {name : String} {v : Value}
    (valid : FollowsPlainly s.value (fuel + 1) (.object ((Shape.named name).members true)) v) :
    Fits s.definitions (.named name) v ∨ v = .null := by
  have either : choices (.object ((Shape.named name).members true)) "anyOf" =
      [Shape.reference name, .object [("type", .string "null")]] := rfl
  obtain ⟨schema, listed, follows⟩ := valid.choice rfl List.mem_cons_self (either ▸ nofun)
  rw [either] at listed
  cases fuel with
  | zero => cases follows.valid
  | succ fuel =>
    obtain rfl | rfl : schema = _ ∨ schema = _ := by simpa using listed
    · exact .inl (fits_of_reference (earlier fuel (Nat.le_succ fuel)) follows)
    · obtain typed | ⟨none, -⟩ := type_of_holds false (follows.holds rfl)
      · exact .inr (eq_null_of_mem_types typed)
      · cases none

theorem integer_holds {null : Bool} {w : Word} {l : Literal}
    (passed : holds (.object ((Shape.integer w).members null)) (.number l) = true) :
    w.Holds l.value := by
  simp only [holds, Bool.and_eq_true] at passed
  have ranged := passed.1.1.2
  have format : keyword (.object ((Shape.integer w).members null)) "format" =
      some (.string w.format) := rfl
  have word : Word.ofFormat? w.format = some w := by cases w <;> rfl
  simpa [formatHolds, format, word] using ranged

theorem shape_conforms (earlier : ∀ f ≤ fuel, Conforms s f) (shape : Shape) (null : Bool)
    (v : Value) (valid : FollowsPlainly s.value (fuel + 1) (.object (shape.members null)) v) :
    Fits s.definitions shape v ∨ null = true ∧ v = .null := by
  induction shape generalizing null with
  | string =>
    refine (type_of_holds null (valid.holds rfl)).imp_left fun typed => ?_
    cases v with
    | string text => exact .string text
    | _ => simp [types] at typed
  | boolean =>
    refine (type_of_holds null (valid.holds rfl)).imp_left fun typed => ?_
    cases v with
    | boolean b => exact .boolean b
    | _ => simp [types] at typed
  | integer w =>
    have alone : keyword (.object ((Shape.integer w).members null)) "$ref" = none := by
      cases w <;> rfl
    have holds := valid.holds alone
    refine (type_of_holds null holds).imp_left fun typed => ?_
    cases v with
    | number l =>
      have integer : "integer" ∈ if null then ["integer", "null"] else ["integer"] := by
        split <;> exact List.mem_cons_self
      exact .integer (valid.plain l (.here alone ⟨_, allowed_typeMember null _ _, integer⟩))
        (integer_holds holds)
    | _ => simp [types] at typed
  | list item =>
    refine (type_of_holds null (valid.holds rfl)).imp_left fun typed => ?_
    cases v with
    | array vs =>
      refine .list fun v mem => ?_
      have part := valid.part rfl (p := (.object (item.members false), v))
        (List.mem_map_of_mem mem)
      exact ((earlier fuel (Nat.le_refl fuel)).shape item false v part).resolve_right (by simp)
    | _ => simp [types] at typed
  | named name =>
    cases null with
    | false =>
      exact .inl (fits_of_reference (earlier fuel (Nat.le_refl fuel)) valid)
    | true => exact (fits_of_nullReference earlier valid).imp_right fun none => ⟨rfl, none⟩
  | nullable shape ih =>
    obtain fits | ⟨-, rfl⟩ := ih true valid
    · exact .inl (.value fits)
    · exact .inl (.null shape)

theorem find?_map_lookup (ps : List Property) (key : String) :
    (ps.map fun p => (p.key, p.schema)).lookup key =
      (ps.find? (·.key = key)).map Property.schema := by
  induction ps with
  | nil => rfl
  | cons p ps ih =>
    by_cases same : p.key = key
    · simp [same]
    · rw [List.map_cons, List.lookup_cons, List.find?_cons_of_neg (by simpa using same), ← ih,
        beq_false_of_ne (Ne.symm same)]

theorem record_conforms (conforms : Conforms s fuel) {ps : List Property} {v : Value}
    (valid : FollowsPlainly s.value (fuel + 1) (.object (Body.record ps).members) v) :
    Suits s.definitions (.record ps) v := by
  have holds := valid.holds rfl
  obtain typed | ⟨none, -⟩ := type_of_holds false holds
  case inr => cases none
  cases v with
  | object ms =>
    simp only [Schema.holds, Bool.and_eq_true] at holds
    have required := holds.2
    have keys : keyword (.object (Body.record ps).members) "required" =
        some (.array ((ps.filter (·.default.isNone)).map (.string ·.key))) := rfl
    have properties : keyword (.object (Body.record ps).members) "properties" =
        some (.object (ps.map fun p => (p.key, p.schema))) := rfl
    refine .record (fun p mem absent => ?_) (fun m mem p found => ?_)
    · simp only [requiredHolds, keys, strings_map, List.all_eq_true, List.mem_map,
        List.mem_filter] at required
      have present := required p.key ⟨p, ⟨mem, absent⟩, rfl⟩
      by_contra missing
      have none := lookup_of_forall_ne fun m mem same =>
        missing (List.mem_map.mpr ⟨m, mem, Eq.symm same⟩)
      rw [none] at present
      cases present
    · have part : (p.schema, m.2) ∈ parts (.object (Body.record ps).members) (.object ms) := by
        simp only [parts, properties, find?_map_lookup]
        exact List.mem_filterMap.mpr ⟨m, mem, by rw [found]; rfl⟩
      have follows := (valid.part rfl part).asserted p.asserts
      exact (conforms.shape p.shape false m.2 follows).resolve_right (by simp)
  | _ => simp [types] at typed

theorem body_conforms (conforms : Conforms s fuel) (body : Body) (v : Value)
    (valid : FollowsPlainly s.value (fuel + 1) (.object body.members) v) :
    Suits s.definitions body v := by
  cases body with
  | record ps => exact record_conforms conforms valid
  | tags listed =>
    obtain ⟨tag, mem, rfl⟩ := tag_of_holds (valid.holds rfl)
    exact .tags mem
  | tagsOr listed other description =>
    have either : choices (.object (Body.tagsOr listed other description).members) "oneOf" =
        [.object (tagMembers listed),
          .object ([("description", .string description)] ++ tagMembers [other])] := rfl
    obtain ⟨schema, mem, follows⟩ := valid.choice rfl (List.mem_cons_of_mem _ List.mem_cons_self)
      (either ▸ nofun)
    rw [either] at mem
    cases fuel with
    | zero => cases follows.valid
    | succ fuel =>
      obtain rfl | rfl : schema = _ ∨ schema = _ := by simpa using mem
      · obtain ⟨tag, mem, rfl⟩ := tag_of_holds (follows.holds rfl)
        exact .tagsOr (.inl mem)
      · have described := follows.asserted (asserts_behind [("description", _)] _
          (List.forall_mem_singleton.mpr (by decide : "description" ∉ assertions)))
        obtain ⟨tag, mem, rfl⟩ := tag_of_holds (described.holds rfl)
        exact .tagsOr (.inr (List.mem_singleton.mp mem))

theorem conforms (s : Schema) (fuel : Nat) : Conforms s fuel := by
  induction fuel using Nat.strongRecOn with
  | ind fuel ih =>
    cases fuel with
    | zero =>
      exact ⟨fun _ _ _ valid => (nomatch valid.valid), fun _ _ valid => (nomatch valid.valid)⟩
    | succ fuel =>
      have earlier (f : Nat) (le : f ≤ fuel) := ih f (Nat.lt_succ_of_le le)
      exact ⟨shape_conforms earlier, body_conforms (earlier fuel (Nat.le_refl fuel))⟩

/-- What follows the text of a schema is as the schema describes. -/
theorem suits_of_valid {v : Value} (valid : Valid s.value s.value v)
    (plain : ∀ l, AsksInteger s.value s.value v l → l.IsPlain) :
    Suits s.definitions s.root.body v := by
  obtain ⟨fuel, follows⟩ := valid
  have whole : FollowsPlainly s.value fuel s.value v := ⟨follows, plain⟩
  exact (conforms s fuel).body _ v (whole.asserted (asserts_root s))

end

end Spindle.Schema
