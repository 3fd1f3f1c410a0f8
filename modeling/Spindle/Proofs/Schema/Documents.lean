import Spindle.Proofs.Json.Filling
import Spindle.Proofs.Json.Lenience
import Spindle.Proofs.Schema.Places
import Spindle.Proofs.Schema.Readers

/-!
# Documents and schemas

The converse of `Readers`: what a reader takes is, read as a document, of the shape that describes
it, where every record is written as an object and every tag as a string that the schema knows.
-/

namespace Spindle

open Json

namespace Schema

variable {definitions : List Definition}

/-- Every record in the value is an object, every tag a string that the schema knows. -/
structure IsPlain (definitions : List Definition) (b : Body) (v : Value) : Prop where
  written : ∀ b' w, Place definitions b v b' w → b'.IsWritten w
  known : ∀ listed other description tag,
    Place definitions b v (.tagsOr listed other description) (.string tag) → tag ∈ listed ++ [other]

/-- What is asked for in a value of the shape is plain. -/
def LeadsPlainly (definitions : List Definition) (shape : Shape) (v : Value) : Prop :=
  ∀ b w, Leads definitions shape v b w → IsPlain definitions b w

/-- What is read is, as a document, of the shape. -/
def Describes (definitions : List Definition) (shape : Shape) (r : Reader α) : Prop :=
  ∀ (strict : Bool) s a v rest rest', r.run s = .ok (a, rest) →
    (document strict).run s = .ok (v, rest') → LeadsPlainly definitions shape v →
    rest' = rest ∧ Fits definitions shape v

theorem describes_afterBlanks {shape : Shape} {run : Char → List Char → Except Error (α × List Char)}
    {shorter : ∀ {c s v rest}, run c s = .ok (v, rest) → rest.length ≤ s.length}
    (describes : ∀ (strict : Bool) c s a v rest rest', run c s = .ok (a, rest) →
      Document.Opens strict c s v rest' → LeadsPlainly definitions shape v →
      rest' = rest ∧ Fits definitions shape v) :
    Describes definitions shape (.afterBlanks run shorter) := by
  intro strict s a v rest rest' read doc plain
  obtain ⟨c, t, found, opens⟩ := Document.document_eq_ok.mp doc
  rw [Reader.afterBlanks_run found] at read
  exact describes strict c t a v rest rest' read opens plain

/-! ### Strings and integers -/

theorem describes_string : Describes definitions .string (Wire.reader : Reader String) := by
  refine describes_afterBlanks fun strict c s a v rest rest' read opens _ => ?_
  obtain ⟨rfl, cs, strictly, rfl⟩ := readString_eq_ok.mp read
  cases opens with
  | string reads => exact ⟨(Quoted.read_blurred strictly reads).1, .string _⟩
  | number starts => cases starts

theorem describes_boolean : Describes definitions .boolean (Wire.reader : Reader Bool) := by
  refine describes_afterBlanks fun strict c s a v rest rest' read opens _ => ?_
  obtain ⟨rfl, word, rfl⟩ | ⟨rfl, word, rfl⟩ := readBoolean_eq_ok.mp read
  · cases opens with
    | yes word' => exact ⟨Except.ok.inj (word'.symm.trans word), .boolean true⟩
    | number starts => cases starts
  · cases opens with
    | no word' => exact ⟨Except.ok.inj (word'.symm.trans word), .boolean false⟩
    | number starts => cases starts

theorem describes_integer {w : Word} {convert : Int → Option α} {value : α → Int}
    (converts : w.Converts convert value) :
    Describes definitions (.integer w) (Json.integer w.name convert) := by
  refine describes_afterBlanks fun strict c s a v rest rest' read opens _ => ?_
  obtain ⟨starts, l, z, reads, number, converted⟩ := readInteger_eq_ok.mp read
  cases opens with
  | number _ reads' =>
    cases (Literal.read_ok reads _).symm.trans reads'
    obtain ⟨plain, rfl⟩ := Literal.integer_of_number number
    refine ⟨rfl, .integer plain ?_⟩
    rw [plain.value_eq, Word.holds_intCast]
    exact converts.range _ _ converted
  | list | object | string | null | yes | no => cases starts

theorem describes_uint64 : Describes definitions (.integer .uint64) (Wire.reader : Reader UInt64) :=
  describes_integer Word.converts_uint64

theorem describes_uint32 : Describes definitions (.integer .uint32) (Wire.reader : Reader UInt32) :=
  describes_integer Word.converts_uint32

theorem describes_int32 : Describes definitions (.integer .int32) (Wire.reader : Reader Int32) :=
  describes_integer Word.converts_int32

/-! ### Tags -/

/-- Without a value for all others, only the listed tags stand for something. -/
theorem mem_of_ofTag {t : Tags α} (closed : t.other = none) {tag : String}
    {a : α} (known : t.ofTag tag = .ok a) : tag ∈ t.listed.map Prod.fst := by
  by_contra missing
  have none := lookup_of_forall_ne fun m mem same =>
    missing (List.mem_map.mpr ⟨m, mem, Eq.symm same⟩)
  rw [Tags.ofTag, none, closed] at known
  cases known

theorem string_of_tag {t : Tags α} {strict : Bool} {c : Char} {s rest rest' : List Char} {a : α}
    {v : Value} (read : t.read c s = .ok (a, rest)) (opens : Document.Opens strict c s v rest')
    (written : ∃ tag, v = .string tag) :
    rest' = rest ∧ ∃ cs ds, Quoted.Blurred cs ds ∧ t.ofTag (String.ofList cs) = .ok a ∧
      v = .string (String.ofList ds) := by
  obtain ⟨rfl, cs, strictly, known⟩ | ⟨rfl, -⟩ := Tags.read_eq_ok.mp read
  · cases opens with
    | string reads =>
      obtain ⟨rfl, blurred⟩ := Quoted.read_blurred strictly reads
      exact ⟨rfl, cs, _, blurred, known, rfl⟩
    | number starts => cases starts
  · obtain ⟨tag, rfl⟩ := written
    cases opens

section
variable {t : Tags α} {name : String} {d : Definition} {listed : List String}
  (found : definitions.find? (·.name = name) = some d)
include found

theorem describes_tags (body : d.body = .tags listed) (closed : t.other = none)
    (same : t.listed.map Prod.fst = listed) (near : ∀ tag ∈ listed, Quoted.Near tag) :
    Describes definitions (.named name) t.reader := by
  refine describes_afterBlanks fun strict c s a v rest rest' read opens plain => ?_
  have written := (plain _ _ (.named v found)).written _ _ (.here _ _)
  rw [body] at written
  obtain ⟨rfl, cs, ds, blurred, known, rfl⟩ := string_of_tag read opens written
  have mem := same ▸ mem_of_ofTag closed known
  rw [(blurred.eq_iff (near _ mem)).mp rfl]
  exact ⟨rfl, .named found (body ▸ .tags mem)⟩

theorem describes_tagsOr {other description : String}
    (body : d.body = .tagsOr listed other description) :
    Describes definitions (.named name) t.reader := by
  refine describes_afterBlanks fun strict c s a v rest rest' read opens plain => ?_
  have plain := plain _ _ (.named v found)
  have written := plain.written _ _ (.here _ _)
  rw [body] at written
  obtain ⟨rfl, cs, ds, -, -, rfl⟩ := string_of_tag read opens written
  have known := plain.known listed other description (String.ofList ds) (body ▸ .here _ _)
  refine ⟨rfl, .named found (body ▸ .tagsOr ?_)⟩
  simpa using known

end

/-! ### Lists and optional values -/

section
variable {item : Shape}

theorem LeadsPlainly.of_mem {vs : List Value} {v : Value}
    (plain : LeadsPlainly definitions (.list item) (.array vs)) (mem : v ∈ vs) :
    LeadsPlainly definitions item v := fun b w leads => plain b w (.item mem leads)

theorem LeadsPlainly.of_some {v : Value} (plain : LeadsPlainly definitions (.nullable item) v)
    (some : v ≠ .null) : LeadsPlainly definitions item v :=
  fun b w leads => plain b w (.value some leads)

theorem items_described {r : Reader α} (describes : Describes definitions item r) {strict : Bool}
    {first : Bool} {s rest' : List Char} {vs : List Value}
    (items : Document.Items strict first s vs rest') {read xs : List α} {rest : List Char}
    (start : read.isEmpty = first) (run : (Json.items r).run read s = .ok (xs, rest))
    (plain : ∀ v ∈ vs, LeadsPlainly definitions item v) :
    rest' = rest ∧ ∀ v ∈ vs, Fits definitions item v := by
  induction items generalizing read with
  | close next =>
    subst start
    obtain ⟨next', -⟩ | ⟨_, _, _, next', -⟩ := run_items_eq_ok.mp run
    · cases next.symm.trans next'
      exact ⟨rfl, nofun⟩
    · cases next.symm.trans next'
  | item next value others ih =>
    subst start
    obtain ⟨next', -⟩ | ⟨_, x, after, next', reads, run⟩ := run_items_eq_ok.mp run
    · cases next.symm.trans next'
    · cases next.symm.trans next'
      obtain ⟨plain, plains⟩ := List.forall_mem_cons.mp plain
      obtain ⟨rfl, fits⟩ := describes _ _ _ _ _ _ reads value plain
      obtain ⟨rfl, all⟩ := ih rfl run plains
      exact ⟨rfl, List.forall_mem_cons.mpr ⟨fits, all⟩⟩

variable [Wire α] (describes : Describes definitions item (Wire.reader : Reader α))
include describes

theorem describes_list : Describes definitions (.list item) (Wire.reader : Reader (List α)) := by
  show Describes definitions (.list item) (.afterBlanks (readList Wire.reader) readList_le)
  refine describes_afterBlanks fun strict c s a v rest rest' read opens plain => ?_
  obtain ⟨rfl, run⟩ := readList_eq_ok.mp read
  cases opens with
  | list items =>
    obtain ⟨rfl, fits⟩ := items_described describes items rfl run fun v => plain.of_mem
    exact ⟨rfl, .list fits⟩
  | number starts => cases starts

theorem describes_nullable :
    Describes definitions (.nullable item) (Wire.reader : Reader (Option α)) := by
  intro strict s a v rest rest' read doc plain
  obtain ⟨c, t, found, opens⟩ := Document.document_eq_ok.mp doc
  obtain ⟨u, null, word, -⟩ | ⟨other, w, value, -⟩ := readOption_eq_ok.mp read
  · cases found.symm.trans null
    cases opens with
    | null word' => exact ⟨Except.ok.inj (word'.symm.trans word), .null item⟩
    | number starts => cases starts
  · have some : v ≠ .null := by
      rintro rfl
      cases opens
      exact other (by rw [found]; rfl)
    have doc : (document strict).run (skipBlank s) = .ok (v, rest') :=
      (Document.run_value_skipBlank [] s).trans doc
    obtain ⟨rfl, fits⟩ := describes _ _ _ _ _ _ value doc (plain.of_some some)
    exact ⟨rfl, .value fits⟩

end

/-! ### Records -/

/-- A field is described by the property of its key. -/
def Documented (definitions : List Definition) (ps : List Property) (f : Json.Field α) : Prop :=
  ∃ p, ps.find? (·.key = f.key) = some p ∧ Describes definitions p.shape f.reader

/-- A record has a field for every property, which is required if the property is. -/
structure Covers {αs : List Type} (fs : Fields αs) (ps : List Property) : Prop where
  known : ∀ p ∈ ps, p.key ∈ fs.keys
  required : ∀ p ∈ ps, p.default.isNone → p.key ∈ fs.required
  near : ∀ key ∈ fs.keys, Quoted.Near key

section
variable {αs : List Type} {fs : Fields αs} {ps : List Property} (covers : Covers fs ps)
  (documented : fs.All fun _ f => Documented definitions ps f)
include covers documented

/-- The value of a member is as the property of its key says, and a field that it fills is that of
its key. -/
theorem member_described {strict : Bool} {cs key s t t' : List Char} {v : Value}
    {slots slots' : Slots αs} {r : Reader (Slots αs)} (blurred : Quoted.Blurred cs key)
    (place : fs.place slots (String.ofList cs) = .unknown ∧ r = skipped.map (fun () => slots) ∨
      fs.place slots (String.ofList cs) = .free r)
    (reads : r.run s = .ok (slots', t)) (value : (document strict).run s = .ok (v, t'))
    (plain : ∀ p, ps.find? (·.key = String.ofList key) = some p →
      LeadsPlainly definitions p.shape v) :
    t' = t ∧
      (∀ p, ps.find? (·.key = String.ofList key) = some p → Fits definitions p.shape v) ∧
      ∀ k ∈ fs.taken slots', k = String.ofList key ∨ k ∈ fs.taken slots := by
  obtain ⟨unknown, rfl⟩ | free := place
  · -- the key is not that of a property
    obtain ⟨_, skips, rfl⟩ := Reader.map_eq_ok.mp reads
    obtain ⟨_, passed, -⟩ := Reader.map_eq_ok.mp skips
    refine ⟨document_rest_unique passed value, fun p found => ?_, fun k mem => .inr mem⟩
    have same : p.key = String.ofList key := by simpa using List.find?_some found
    have known := covers.known p (List.mem_of_find?_eq_some found)
    have self := (blurred.eq_iff (covers.near _ known)).mpr same.symm
    exact absurd (self ▸ known) (Fields.notMem_of_unknown unknown)
  · obtain ⟨β, f, put, field, rfl⟩ := Fields.place_eq_free free
    obtain ⟨p, described, describes⟩ := documented.of_find? field
    have same := Fields.key_of_find? field
    have near := covers.near _ (Fields.mem_keys_of_find? field)
    have self := (blurred.eq_iff near).mp rfl
    have taken := Fields.taken_of_free free reads
    obtain ⟨a, reads', rfl⟩ := Reader.map_eq_ok.mp reads
    rw [self, ← same] at plain ⊢
    obtain ⟨rest, fits⟩ := describes _ _ _ _ _ _ reads' value (plain p described)
    refine ⟨rest, fun q found => ?_, same ▸ taken⟩
    obtain rfl := Option.some.inj (described.symm.trans found)
    exact fits

theorem members_described {strict first : Bool} {s rest' : List Char} {ms : List (String × Value)}
    (members : Document.Members strict first s ms rest') {slots : Slots αs} {vs : Values αs}
    {rest : List Char} (run : (Record.object fs).run (first, slots) s = .ok (vs, rest))
    (plain : ∀ m ∈ ms, ∀ p, ps.find? (·.key = m.1) = some p →
      LeadsPlainly definitions p.shape m.2) :
    rest' = rest ∧
      (∀ m ∈ ms, ∀ p, ps.find? (·.key = m.1) = some p → Fits definitions p.shape m.2) ∧
      ∀ key ∈ fs.required, key ∈ fs.taken slots ∨ key ∈ ms.map Prod.fst := by
  induction members generalizing slots with
  | close next =>
    obtain ⟨next', complete⟩ | ⟨_, _, _, _, _, _, _, next', -⟩ := Record.run_object_eq_ok.mp run
    · cases next.symm.trans next'
      exact ⟨rfl, nofun, fun key mem => .inl (Fields.taken_of_complete complete key mem)⟩
    · cases next.symm.trans next'
  | @member first s t u t' rest' key v ms next name after colon value others ih =>
    obtain ⟨next', -⟩ | ⟨_, cs, u', after', r, slots', s', next', strictly, colon', place, reads, run⟩ :=
      Record.run_object_eq_ok.mp run
    · cases next.symm.trans next'
    cases next.symm.trans next'
    obtain ⟨rfl, blurred⟩ := Quoted.read_blurred strictly name
    cases colon.symm.trans colon'
    obtain ⟨plain, plains⟩ := List.forall_mem_cons.mp plain
    obtain ⟨rfl, fits, taken⟩ :=
      member_described covers documented blurred place reads value plain
    obtain ⟨rfl, others, required⟩ := ih run plains
    refine ⟨rfl, List.forall_mem_cons.mpr ⟨fits, others⟩, fun k mem => ?_⟩
    obtain mem | mem := required k mem
    · exact (taken k mem).symm.imp_right fun same => List.mem_cons.mpr (.inl same)
    · exact .inr (List.mem_cons_of_mem _ mem)

end

section
variable {αs : List Type} {r : Record S αs} {ps : List Property} (covers : Covers r.fields ps)
  (documented : r.fields.All fun _ f => Documented definitions ps f)
include covers documented

/-- A record that is read is, as a document, as its properties describe. -/
theorem suits_of_read {strict : Bool} {s rest rest' : List Char} {a : S} {v : Value}
    (read : r.reader.run s = .ok (a, rest)) (doc : (document strict).run s = .ok (v, rest'))
    (plain : IsPlain definitions (.record ps) v) :
    rest' = rest ∧ Suits definitions (.record ps) v := by
  obtain ⟨c, t, found, opens⟩ := Document.document_eq_ok.mp doc
  obtain ⟨ms, rfl⟩ := plain.written _ _ (.here _ _)
  obtain ⟨vs, values, -⟩ := Reader.map_eq_ok.mp read
  rw [Reader.afterBlanks_run found] at values
  cases opens with
  | object members =>
    have run : (Record.object r.fields).run (true, .empty αs) t = .ok (vs, rest) := values
    have inner : ∀ m ∈ ms, ∀ p, ps.find? (·.key = m.1) = some p →
        LeadsPlainly definitions p.shape m.2 := fun m mem p found b w leads =>
      ⟨fun b' w' place => plain.written b' w' (.member mem found leads place),
        fun listed other description tag place =>
          plain.known listed other description tag (.member mem found leads place)⟩
    obtain ⟨rfl, fits, required⟩ := members_described covers documented members run inner
    refine ⟨rfl, .record (fun p mem asked => ?_) fits⟩
    exact (required p.key (covers.required p mem asked)).resolve_left (by simp [Fields.taken_empty])

theorem describes_record {name : String} {d : Definition}
    (found : definitions.find? (·.name = name) = some d) (body : d.body = .record ps) :
    Describes definitions (.named name) r.reader := by
  intro strict s a v rest rest' read doc plain
  have plain := plain _ _ (.named v found)
  rw [body] at plain
  obtain ⟨rfl, suits⟩ := suits_of_read covers documented read doc plain
  exact ⟨rfl, .named found (body ▸ suits)⟩

end

end Schema

end Spindle
