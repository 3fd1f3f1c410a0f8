import Spindle.Proofs.Schema.Conformance

/-!
# Places in a value

Where in a value its schema asks for a record or for a tag. In a valid value, what stands at such a
place follows the definition that is asked for there.
-/

namespace Spindle.Schema

open Json (Value Literal)

/-- In a value of the shape, a value of the body is asked for. Null asks for nothing where it is
allowed. -/
inductive Leads (definitions : List Definition) : Shape → Value → Body → Value → Prop where
  | named {name : String} {d : Definition} (v : Value)
      (found : definitions.find? (·.name = name) = some d) :
      Leads definitions (.named name) v d.body v
  | item {item : Shape} {vs : List Value} {v w : Value} {b : Body} (mem : v ∈ vs)
      (leads : Leads definitions item v b w) : Leads definitions (.list item) (.array vs) b w
  | value {s : Shape} {v w : Value} {b : Body} (notNull : v ≠ .null)
      (leads : Leads definitions s v b w) : Leads definitions (.nullable s) v b w

/-- In a value of the body, or at a place in it, a value of the body `b'` is asked for. -/
inductive Place (definitions : List Definition) : Body → Value → Body → Value → Prop where
  | here (b : Body) (v : Value) : Place definitions b v b v
  | member {ps : List Property} {ms : List (String × Value)} {m : String × Value} {p : Property}
      {b b' : Body} {v w : Value} (mem : m ∈ ms) (found : ps.find? (·.key = m.1) = some p)
      (leads : Leads definitions p.shape m.2 b v) (place : Place definitions b v b' w) :
      Place definitions (.record ps) (.object ms) b' w

namespace Body

/-- Records are written as objects, tags as strings. -/
def IsWritten : Body → Value → Prop
  | record _, v => ∃ ms, v = .object ms
  | tags _, v | tagsOr _ _ _, v => ∃ tag, v = .string tag

/-- The tags that the schema knows. -/
def listed : Body → List String
  | record _ => []
  | tags listed => listed
  | tagsOr listed other _ => listed ++ [other]

end Body

/-! ### Which places there are -/

section
variable {definitions : List Definition} {v w : Value} {b b' : Body}

@[simp] theorem not_leads_string : ¬ Leads definitions .string v b w := nofun

@[simp] theorem not_leads_boolean : ¬ Leads definitions .boolean v b w := nofun

@[simp] theorem not_leads_integer {word : Word} : ¬ Leads definitions (.integer word) v b w := nofun

@[simp] theorem leads_named {name : String} :
    Leads definitions (.named name) v b w ↔
      ∃ d, definitions.find? (·.name = name) = some d ∧ d.body = b ∧ v = w := by
  constructor
  · rintro ⟨⟩
    exact ⟨_, ‹_›, rfl, rfl⟩
  · rintro ⟨d, found, rfl, rfl⟩
    exact .named v found

@[simp] theorem leads_list {item : Shape} {vs : List Value} :
    Leads definitions (.list item) (.array vs) b w ↔ ∃ v ∈ vs, Leads definitions item v b w := by
  constructor
  · rintro ⟨⟩
    exact ⟨_, ‹_›, ‹_›⟩
  · rintro ⟨v, mem, leads⟩
    exact .item mem leads

@[simp] theorem leads_nullable {s : Shape} :
    Leads definitions (.nullable s) v b w ↔ v ≠ .null ∧ Leads definitions s v b w := by
  constructor
  · rintro ⟨⟩
    exact ⟨‹_›, ‹_›⟩
  · rintro ⟨some, leads⟩
    exact .value some leads

theorem place_record {ps : List Property} {ms : List (String × Value)} :
    Place definitions (.record ps) (.object ms) b w ↔
      Body.record ps = b ∧ Value.object ms = w ∨
        ∃ m ∈ ms, ∃ p, ps.find? (·.key = m.1) = some p ∧
          ∃ b' v, Leads definitions p.shape m.2 b' v ∧ Place definitions b' v b w := by
  constructor
  · rintro ⟨⟩
    · exact .inl ⟨rfl, rfl⟩
    · exact .inr ⟨_, ‹_›, _, ‹_›, _, _, ‹_›, ‹_›⟩
  · rintro (⟨rfl, rfl⟩ | ⟨m, mem, p, found, b', v, leads, place⟩)
    · exact .here _ _
    · exact .member mem found leads place

theorem place_string {tag : String} :
    Place definitions b (.string tag) b' w ↔ b = b' ∧ Value.string tag = w := by
  constructor
  · rintro ⟨⟩
    exact ⟨rfl, rfl⟩
  · rintro ⟨rfl, rfl⟩
    exact .here _ _

theorem Leads.isDefined (leads : Leads definitions s v b w) : ∃ d ∈ definitions, d.body = b := by
  induction leads with
  | @named name d v found => exact ⟨d, List.mem_of_find?_eq_some found, rfl⟩
  | item _ _ ih => exact ih
  | value _ _ ih => exact ih

/-- What is asked for inside a value is one of the definitions. -/
theorem Place.isDefined (place : Place definitions b v b' w) :
    b' = b ∨ ∃ d ∈ definitions, d.body = b' := by
  induction place with
  | here => exact .inl rfl
  | member _ _ leads _ ih =>
    refine .inr ?_
    obtain rfl | defined := ih
    · exact leads.isDefined
    · exact defined

end

/-! ### Valid values -/

section
variable {s : Schema}

theorem follows_reference_target {name : String} {d : Definition} {v : Value} {fuel : Nat}
    (found : s.definitions.find? (·.name = name) = some d)
    (valid : follows s.value fuel (Shape.reference name) v = some true) :
    ∃ fuel, follows s.value fuel (.object d.body.members) v = some true := by
  cases fuel with
  | zero => cases valid
  | succ fuel =>
    rw [follows_reference rfl, resolve_reference, found] at valid
    exact ⟨fuel, d.asserts.follows_eq s.value fuel ▸ valid⟩

theorem Leads.follows {shape : Shape} {v w : Value} {b : Body}
    (leads : Leads s.definitions shape v b w) {null : Bool} (notNull : null = true → v ≠ .null)
    {fuel : Nat} (valid : Schema.follows s.value fuel (.object (shape.members null)) v = some true) :
    ∃ fuel, Schema.follows s.value fuel (.object b.members) w = some true := by
  induction leads generalizing null fuel with
  | @named name d v found =>
    cases null with
    | false => exact follows_reference_target found valid
    | true =>
      cases fuel with
      | zero => cases valid
      | succ fuel =>
        have either : choices (.object ((Shape.named name).members true)) "anyOf" =
            [Shape.reference name, .object [("type", .string "null")]] := rfl
        obtain ⟨schema, listed, valid⟩ :=
          (passes_of_follows rfl valid).choice "anyOf" List.mem_cons_self (either ▸ nofun)
        rw [either] at listed
        obtain rfl | rfl : schema = _ ∨ schema = _ := by simpa using listed
        · exact follows_reference_target found valid
        · cases fuel with
          | zero => cases valid
          | succ fuel =>
            obtain typed | ⟨none, -⟩ := type_of_holds false (passes_of_follows rfl valid).holds
            · cases notNull rfl (eq_null_of_mem_types typed)
            · cases none
  | @item item vs v w b mem _ ih =>
    cases fuel with
    | zero => cases valid
    | succ fuel =>
      have part := (passes_of_follows (by cases null <;> rfl) valid).parts
        (.object (item.members false), v) (by cases null <;> exact List.mem_map_of_mem mem)
      have any : false = true → v ≠ .null := nofun
      exact ih any part
  | value some _ ih => exact ih (fun _ => some) valid

theorem Place.follows {b b' : Body} {v w : Value} (place : Place s.definitions b v b' w)
    {fuel : Nat} (valid : Schema.follows s.value fuel (.object b.members) v = some true) :
    ∃ fuel, Schema.follows s.value fuel (.object b'.members) w = some true := by
  induction place generalizing fuel with
  | here => exact ⟨fuel, valid⟩
  | @member ps ms m p _ _ _ _ mem found leads _ ih =>
    cases fuel with
    | zero => cases valid
    | succ fuel =>
      have properties : keyword (.object (Body.record ps).members) "properties" =
          some (.object (ps.map fun p => (p.key, p.schema))) := rfl
      have part : (p.schema, m.2) ∈ parts (.object (Body.record ps).members) (.object ms) := by
        simp only [parts, properties, find?_map_lookup]
        exact List.mem_filterMap.mpr ⟨m, mem, by rw [found]; rfl⟩
      have valid := (passes_of_follows rfl valid).parts _ part
      rw [p.asserts.follows_eq] at valid
      have any : false = true → m.2 ≠ .null := fun no => by cases no
      obtain ⟨fuel, valid⟩ := leads.follows any valid
      exact ih valid

theorem mem_of_follows {root : Value} {listed : List String} {tag : String} {fuel : Nat}
    (valid : follows root fuel (.object (tagMembers listed)) (.string tag) = some true) :
    tag ∈ listed := by
  cases fuel with
  | zero => cases valid
  | succ fuel =>
    obtain ⟨_, mem, same⟩ := tag_of_holds (passes_of_follows rfl valid).holds
    cases same
    exact mem

theorem listed_of_follows {root : Value} {listed : List String} {other description tag : String}
    {fuel : Nat} (valid : follows root fuel
      (.object (Body.tagsOr listed other description).members) (.string tag) = some true) :
    tag ∈ listed ++ [other] := by
  cases fuel with
  | zero => cases valid
  | succ fuel =>
    have either : choices (.object (Body.tagsOr listed other description).members) "oneOf" =
        [.object (tagMembers listed),
          .object (("description", .string description) :: tagMembers [other])] := rfl
    obtain ⟨schema, mem, valid⟩ := (passes_of_follows rfl valid).choice "oneOf"
      (List.mem_cons_of_mem _ List.mem_cons_self) (either ▸ nofun)
    rw [either] at mem
    obtain rfl | rfl : schema = _ ∨ schema = _ := by simpa using mem
    · exact List.mem_append_left _ (mem_of_follows valid)
    · rw [(asserts_described description _).follows_eq] at valid
      exact List.mem_append_right _ (mem_of_follows valid)

/-- At every place of a valid value where such tags are asked for stands one of them. -/
theorem Place.listed {v : Value} (valid : Valid s.value s.value v) {listed : List String}
    {other description tag : String}
    (place : Place s.definitions s.root.body v (.tagsOr listed other description) (.string tag)) :
    tag ∈ listed ++ [other] := by
  obtain ⟨fuel, valid⟩ := valid
  rw [(asserts_root s).follows_eq] at valid
  obtain ⟨fuel, valid⟩ := place.follows valid
  exact listed_of_follows valid

end

end Spindle.Schema
