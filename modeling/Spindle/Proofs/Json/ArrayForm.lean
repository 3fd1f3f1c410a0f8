import Spindle.Proofs.Json.ByKey
import Spindle.Proofs.Json.Endings
import Spindle.Proofs.Json.ListItems

/-!
# Records written as arrays

An array gives its items to the fields of a record one by one. Where it ends too early the other
fields hold what they hold beyond an array, and then the record is that of the object with the same
values under the first keys; a field that holds nothing there is the fault.
-/

namespace Spindle.Json

/-- A field whose value may be an item of an array. -/
structure Field.Item (f : Field α) : Prop where
  persistent : f.reader.Persistent
  skip : ∀ s, f.reader.run (skipBlank s) = f.reader.run s
  starts : ∀ {d v}, f.reader.whole d = .ok v → StartsItem d
  /-- What an array may leave out an object may leave out. -/
  default : ∀ {v}, f.beyond = some v → f.absent = some v

abbrev Fields.Items {αs : List Type} (fs : Fields αs) : Prop := fs.All fun _ f => f.Item

namespace Field.Item

variable [Wire α] [ListItem α]

theorem required (key : String) : (Field.required key : Field α).Item :=
  ⟨PersistentWire.persistent, run_skipBlank, startsItem_of_reads, nofun⟩

theorem defaulted (key : String) (default : α) : (Field.defaulted key default).Item :=
  ⟨PersistentWire.persistent, run_skipBlank, startsItem_of_reads, id⟩

theorem nullable [ListItem (Option α)] (key : String) :
    (Field.nullable key : Field (Option α)).Item :=
  ⟨PersistentWire.persistent, run_skipBlank, startsItem_of_reads, nofun⟩

end Field.Item

/-! ### Types of items -/

instance : ListItem UInt64 := ⟨fun _ => rfl⟩

instance : ListItem UInt32 := ⟨fun _ => rfl⟩

instance : ListItem Int32 := ⟨fun _ => rfl⟩

instance : ListItem Bool := ⟨fun _ => rfl⟩

instance : ListItem String := ⟨fun _ => rfl⟩

instance [Wire α] [ListItem α] [NonNull α] : ListItem (Option α) where
  not_close s := by
    have start : skipBlank (']' :: s) = ']' :: s := skipBlank_cons rfl s
    refine (readOption_of_other start nofun).trans ?_
    rw [ListItem.not_close]

instance [Wire α] [LawfulWire α] : ListItem (List α) := ⟨fun _ => rfl⟩

theorem Tags.listItem {t : Tags α} {write : α → Value}
    (lawful : @LawfulWire α ⟨t.reader, write⟩) : @ListItem α ⟨t.reader, write⟩ :=
  let : Wire α := ⟨t.reader, write⟩
  { lawful with not_close := fun _ => rfl }

/-! ### Fields in their order -/

namespace Fields

/-- The places of the fields that an array may not leave out; the first field has the place `i`. -/
def unomitted : {αs : List Type} → Nat → Fields αs → List Nat
  | [], _, () => []
  | _ :: _, i, (f, fs) =>
    match f.beyond with
    | none => i :: unomitted (i + 1) fs
    | some _ => unomitted (i + 1) fs

/-- Each text is read on its own as the field in its place, or there is no such field and it is
some JSON value. -/
def ReadEach : {αs : List Type} → Fields αs → List (List Char) → Prop
  | [], (), ds => ∀ d ∈ ds, IsJson d
  | _ :: _, _, [] => True
  | _ :: _, (f, fs), d :: ds => (∃ v, f.reader.whole d = .ok v) ∧ ReadEach fs ds

/-- The values that texts give to the fields, with those beyond the last text. -/
def Listed : {αs : List Type} → Fields αs → List (List Char) → Values αs → Prop
  | [], (), ds, () => ds = []
  | _ :: _, (f, fs), [], (v, vs) => f.beyond = some v ∧ Listed fs [] vs
  | _ :: _, (f, fs), d :: ds, (v, vs) => f.reader.whole d = .ok v ∧ Listed fs ds vs

variable {αs : List Type} {fs : Fields αs} {i : Nat}

theorem le_of_mem_unomitted {j : Nat} (mem : j ∈ fs.unomitted i) : i ≤ j := by
  induction αs generalizing i with
  | nil => cases mem
  | cons α αs ih =>
    obtain ⟨f, fs⟩ := fs
    rw [unomitted] at mem
    split at mem
    · obtain rfl | mem := List.mem_cons.mp mem
      · exact Nat.le_refl _
      · exact Nat.le_of_succ_le (ih mem)
    · exact Nat.le_of_succ_le (ih mem)

theorem beyond_of_listed {vs : Values αs} (listed : fs.Listed [] vs) :
    fs.beyond i = .ok vs := by
  induction αs generalizing i with
  | nil => rfl
  | cons α αs ih =>
    obtain ⟨f, fs⟩ := fs
    obtain ⟨v, vs⟩ := vs
    obtain ⟨head, tail⟩ := listed
    rw [beyond, head]
    dsimp only
    rw [ih tail]

/-- The first field that holds nothing beyond the array is the one reported. -/
theorem beyond_of_head? {j : Nat} (first : (fs.unomitted i).head? = some j) :
    fs.beyond i = .error j := by
  induction αs generalizing i with
  | nil => cases first
  | cons α αs ih =>
    obtain ⟨f, fs⟩ := fs
    rw [unomitted] at first
    rw [beyond]
    cases omitted : f.beyond with
    | none =>
      simp only [omitted] at first
      cases first
      rfl
    | some v =>
      simp only [omitted] at first
      have later := ih first
      simp only [later]

theorem head?_unomitted {j : Nat} (first : (fs.unomitted i).find? (i ≤ ·) = some j) :
    (fs.unomitted i).head? = some j := by
  cases places : fs.unomitted i with
  | nil => simp [places] at first
  | cons k ks =>
    have mem : k ∈ fs.unomitted i := by simp [places]
    have le : i ≤ k := le_of_mem_unomitted mem
    rw [places, List.find?_cons_of_pos (by simpa using le)] at first
    rw [List.head?_cons, first]

theorem exists_listed {ds : List (List Char)} (reads : fs.ReadEach ds)
    (fits : ds.length ≤ αs.length) (far : ∀ j ∈ fs.unomitted i, j < i + ds.length) :
    ∃ vs, fs.Listed ds vs := by
  induction αs generalizing i ds with
  | nil =>
    have none : ds = [] := List.length_eq_zero_iff.mp (Nat.le_zero.mp fits)
    exact ⟨(), none⟩
  | cons α αs ih =>
    obtain ⟨f, fs⟩ := fs
    rw [unomitted] at far
    cases ds with
    | nil =>
      cases beyond : f.beyond with
      | none =>
        rw [beyond] at far
        have here := far i List.mem_cons_self
        simp at here
      | some v =>
        rw [beyond] at far
        have later : ∀ j ∈ unomitted (i + 1) fs, j < i + 1 + ([] : List (List Char)).length := by
          intro j mem
          have here := far j mem
          simp only [List.length_nil] at here ⊢
          omega
        have tail : ReadEach fs [] := by
          cases αs with
          | nil => exact nofun
          | cons β αs => trivial
        obtain ⟨vs, listed⟩ := ih tail (Nat.zero_le _) later
        exact ⟨(v, vs), beyond, listed⟩
    | cons d ds =>
      obtain ⟨⟨v, head⟩, tail⟩ := reads
      have later : ∀ j ∈ unomitted (i + 1) fs, j < i + 1 + ds.length := by
        intro j mem
        have here : j < i + (d :: ds).length := by
          apply far
          split
          · exact List.mem_cons_of_mem _ mem
          · exact mem
        rw [List.length_cons] at here
        omega
      obtain ⟨vs, listed⟩ := ih tail (Nat.le_of_succ_le_succ fits) later
      exact ⟨(v, vs), head, listed⟩

end Fields

/-! ### Reading the array -/

namespace Record

section
variable {αs : List Type} (name : String) (size i : Nat) {gap : List Char} (gap_blank : Blank gap)
  (rest : List Char) {b : List Char} (blank : Blank b)
include gap_blank

theorem delimits_items (ds : List (List Char)) :
    Delimits (following ds ++ (gap ++ ']' :: rest)) :=
  .following ds (.blank_append gap_blank (.cons rfl rest))

/-- One item gives the first of the fields its value. -/
theorem readArray_item {f : Field α} (item : f.Item) {d : List Char} {v : α}
    (reads : f.reader.whole d = .ok v) (fs : Fields αs) (ds : List (List Char)) :
    ∃ b', Blank b' ∧ ∀ b, Blank b →
      @readArray name size (α :: αs) i (f, fs)
          (b ++ (joined (i = 0) (d :: ds) ++ (gap ++ ']' :: rest))) =
        (readArray name size (i + 1) fs
          (b' ++ (joined (i + 1 = 0) ds ++ (gap ++ ']' :: rest)))).map
            fun read => ((v, read.1), read.2) := by
  obtain ⟨b', blank', takes⟩ := item.persistent.takes reads
  refine ⟨b', blank', fun b blank => ?_⟩
  have next := nextItem_due blank (item.starts reads) (i = 0)
    (following ds ++ (gap ++ ']' :: rest))
  have run : f.reader.run (skipBlank (d ++ (following ds ++ (gap ++ ']' :: rest)))) =
      .ok (v, b' ++ (following ds ++ (gap ++ ']' :: rest))) := by
    rw [item.skip, takes _ (delimits_items gap_blank rest ds)]
  rw [decide_eq_false (Nat.succ_ne_zero i), joined_false, joined, List.append_assoc, readArray,
    next]
  dsimp only
  rw [run]
  dsimp only
  cases readArray name size (i + 1) fs (b' ++ (following ds ++ (gap ++ ']' :: rest))) <;> rfl

include blank

/-- Without an item the fields hold what they hold beyond an array. -/
theorem readArray_close (f : Field α) (fs : Fields αs) :
    @readArray name size (α :: αs) i (f, fs) (b ++ (gap ++ ']' :: rest)) =
      match @Fields.beyond (α :: αs) i (f, fs) with
      | .error j => .error (.wrongLength j name size)
      | .ok vs => .ok (vs, rest) := by
  rw [← List.append_assoc, readArray, nextItem_bracket (blank.append gap_blank)]
  dsimp only
  cases @Fields.beyond (α :: αs) i (f, fs) <;> rfl

theorem endArray_close : endArray (b ++ (gap ++ ']' :: rest)) = .ok rest := by
  rw [← List.append_assoc, endArray_eq_ok, skipBlank_blank_cons (blank.append gap_blank) rfl]

omit gap_blank

theorem endArray_goesOn {d : List Char} (json : IsJson d) :
    endArray (b ++ ',' :: (d ++ rest)) = .error .trailingCharacters := by
  obtain ⟨c, t, found, notClose⟩ := json.startsItem
  have comma : skipBlank (b ++ ',' :: (d ++ rest)) = ',' :: (d ++ rest) :=
    skipBlank_blank_cons blank rfl _
  rw [endArray, comma]
  simp only [skipBlank_append found]
  split
  · rename_i close
    exact absurd (List.cons.inj close).1 notClose
  · rfl

end

section
variable {αs : List Type} {fs : Fields αs} (items : fs.Items) (name : String) (size : Nat)
  {i : Nat} {ds : List (List Char)} {gap : List Char} (gap_blank : Blank gap) (rest : List Char)
  {b : List Char} (blank : Blank b)
include items gap_blank blank

/-- What an array gives to the fields it is read as. -/
theorem readArray_accepts {vs : Values αs} (listed : fs.Listed ds vs) :
    readArray name size i fs (b ++ (joined (i = 0) ds ++ (gap ++ ']' :: rest))) =
      .ok (vs, rest) := by
  induction αs generalizing i ds b with
  | nil =>
    obtain ⟨⟩ := fs
    obtain ⟨⟩ := vs
    obtain rfl : ds = [] := listed
    rw [joined, List.nil_append, readArray, endArray_close gap_blank rest blank]
  | cons α αs ih =>
    obtain ⟨f, fs⟩ := fs
    obtain ⟨v, vs⟩ := vs
    obtain ⟨item, items⟩ := items
    cases ds with
    | nil =>
      have values : @Fields.beyond (α :: αs) i (f, fs) = .ok (v, vs) :=
        Fields.beyond_of_listed listed
      refine (readArray_close name size i gap_blank rest blank f fs).trans ?_
      rw [values]
    | cons d ds =>
      obtain ⟨head, tail⟩ := listed
      obtain ⟨b', blank', step⟩ := readArray_item name size i gap_blank rest item head fs ds
      rw [step b blank, ih items blank' tail]
      rfl

/-- The array ends before a field that it may not leave out. -/
theorem readArray_tooShort (reads : fs.ReadEach ds) {j : Nat}
    (first : (fs.unomitted i).find? (i + ds.length ≤ ·) = some j) :
    readArray name size i fs (b ++ (joined (i = 0) ds ++ (gap ++ ']' :: rest))) =
      .error (.wrongLength j name size) := by
  induction αs generalizing i ds b with
  | nil => cases first
  | cons α αs ih =>
    obtain ⟨f, fs⟩ := fs
    obtain ⟨item, items⟩ := items
    cases ds with
    | nil =>
      have missing : @Fields.beyond (α :: αs) i (f, fs) = .error j :=
        Fields.beyond_of_head? (Fields.head?_unomitted first)
      refine (readArray_close name size i gap_blank rest blank f fs).trans ?_
      rw [missing]
    | cons d ds =>
      obtain ⟨⟨v, head⟩, tail⟩ := reads
      obtain ⟨b', blank', step⟩ := readArray_item name size i gap_blank rest item head fs ds
      have others : (Fields.unomitted (i + 1) fs).find? (i + 1 + ds.length ≤ ·) = some j := by
        have same : i + 1 + ds.length = i + (d :: ds).length := by
          rw [List.length_cons]
          omega
        rw [same, ← first, Fields.unomitted]
        split
        · rw [List.find?_cons_of_neg (by simp)]
        · rfl
      rw [step b blank, ih items blank' tail others]
      rfl

/-- The array goes on after the last field. -/
theorem readArray_tooLong (reads : fs.ReadEach ds) (long : αs.length < ds.length)
    (later : αs = [] → i ≠ 0) :
    readArray name size i fs (b ++ (joined (i = 0) ds ++ (gap ++ ']' :: rest))) =
      .error .trailingCharacters := by
  induction αs generalizing i ds b with
  | nil =>
    obtain ⟨⟩ := fs
    cases ds with
    | nil => cases long
    | cons d ds =>
      have fault := endArray_goesOn (following ds ++ (gap ++ ']' :: rest)) blank
        (reads d List.mem_cons_self)
      rw [decide_eq_false (later rfl), joined_false, following_cons, List.cons_append,
        List.append_assoc, readArray, fault]
  | cons α αs ih =>
    obtain ⟨f, fs⟩ := fs
    obtain ⟨item, items⟩ := items
    cases ds with
    | nil => cases long
    | cons d ds =>
      obtain ⟨⟨v, head⟩, tail⟩ := reads
      obtain ⟨b', blank', step⟩ := readArray_item name size i gap_blank rest item head fs ds
      rw [step b blank, ih items blank' tail (Nat.lt_of_succ_lt_succ long)
        fun _ => Nat.succ_ne_zero i]
      rfl

end

end Record

/-! ### The object with the same values -/

/-- An object whose members are the texts of an array, in their order, under the first keys of the
fields. -/
def ObjectText.Spells {αs : List Type} (o : ObjectText) (fs : Fields αs) (ds : List (List Char)) :
    Prop := o.members.map (fun m => (m.key, m.value)) = fs.keys.zip ds

theorem map_fst_zip_sublist (ks : List α) (ds : List β) :
    ((ks.zip ds).map Prod.fst).Sublist ks := by
  induction ks generalizing ds with
  | nil => exact List.nil_sublist _
  | cons k ks ih =>
    cases ds with
    | nil => exact List.nil_sublist _
    | cons d ds => exact (ih ds).cons_cons k

section
variable {αs : List Type} {fs : Fields αs} (nodup : fs.keys.Nodup) {ds : List (List Char)}
  {others : List Member} (same : others.map (fun m => (m.key, m.value)) = fs.keys.zip ds)
include nodup same

theorem Fields.holds_of_listed (items : fs.Items) {vs : Values αs} (listed : fs.Listed ds vs)
    (ms : List Member) (fresh : ∀ m ∈ ms, m.key ∉ fs.keys) : fs.Holds (ms ++ others) vs := by
  induction αs generalizing ms ds others with
  | nil => trivial
  | cons α αs ih =>
    obtain ⟨f, fs⟩ := fs
    obtain ⟨v, vs⟩ := vs
    obtain ⟨item, items⟩ := items
    obtain ⟨unique, nodup⟩ := List.nodup_cons.mp nodup
    have notThis : ∀ m ∈ ms, m.key ≠ f.key :=
      fun m mem same => fresh m mem (List.mem_cons.mpr (.inl same))
    cases ds with
    | nil =>
      obtain ⟨head, tail⟩ := listed
      have none : others = [] := by simpa [keys] using same
      subst none
      have given : f.given (ms ++ []) = none := by rw [List.append_nil, Field.given_eq_none notThis]
      refine ⟨?_, ih nodup (by simp) items tail ms
        fun m mem known => fresh m mem (List.mem_cons_of_mem _ known)⟩
      rw [given, Option.none_or, item.default head]
    | cons d ds =>
      obtain ⟨head, tail⟩ := listed
      cases others with
      | nil => simp [keys] at same
      | cons m others =>
        obtain ⟨first, same⟩ := List.cons.inj same
        obtain ⟨key, value⟩ := Prod.mk.inj first
        have given := Field.given_append_cons notThis key (value ▸ head) others
        have later := ih nodup same items tail (ms ++ [m]) ?_
        · rw [← List.append_cons] at later
          exact ⟨by rw [given]; rfl, later⟩
        · intro m' mem known
          obtain mem | mem := List.mem_append.mp mem
          · exact fresh m' mem (List.mem_cons_of_mem _ known)
          · rw [List.mem_singleton.mp mem, key] at known
            exact unique known

theorem Fields.fits_of_listed {vs : Values αs} (listed : fs.Listed ds vs) :
    ∀ m ∈ others, fs.All fun _ f => m.key = f.key → ∃ v, f.reader.whole m.value = .ok v := by
  induction αs generalizing ds others with
  | nil => exact fun _ _ => trivial
  | cons α αs ih =>
    obtain ⟨f, fs⟩ := fs
    obtain ⟨v, vs⟩ := vs
    obtain ⟨unique, nodup⟩ := List.nodup_cons.mp nodup
    cases ds with
    | nil =>
      have none : others = [] := by simpa [keys] using same
      subst none
      exact nofun
    | cons d ds =>
      obtain ⟨head, tail⟩ := listed
      cases others with
      | nil => simp [keys] at same
      | cons m others =>
        obtain ⟨first, same⟩ := List.cons.inj same
        obtain ⟨key, value⟩ := Prod.mk.inj first
        intro m' mem
        obtain rfl | mem := List.mem_cons.mp mem
        · exact ⟨fun _ => ⟨v, value ▸ head⟩, by rw [key]; exact all_of_notMem unique⟩
        · have known : m'.key ∈ Fields.keys fs := by
            have pair : (m'.key, m'.value) ∈ (keys fs).zip ds := by
              rw [← show _ = (keys fs).zip ds from same]
              exact List.mem_map_of_mem (f := fun m : Member => (m.key, m.value)) mem
            exact (List.of_mem_zip pair).1
          exact ⟨fun eq => absurd (eq ▸ known) unique, ih nodup same tail m' mem⟩

end

/-! ### Whole arrays -/

/-- An array as it is written. Its items have the blanks around them; `gap` stands in front of the
closing bracket. -/
structure ArrayText where
  lead : List Char
  items : List String
  gap : List Char
  trail : List Char
  lead_blank : Blank lead
  gap_blank : Blank gap
  trail_blank : Blank trail

namespace ArrayText

def chars (a : ArrayText) : List Char :=
  a.lead ++ '[' :: (separated (a.items.map String.toList) ++ (a.gap ++ ']' :: a.trail))

def text (a : ArrayText) : String := String.ofList a.chars

/-- An array without blanks. -/
def compact (items : List String) : ArrayText where
  lead := []
  items := items
  gap := []
  trail := []
  lead_blank := .nil
  gap_blank := .nil
  trail_blank := .nil

end ArrayText

/-- Arrays are read as `S` by the places of their items; `required` has the places of the fields
that an array may not leave out. -/
structure ReadsByPlace (S : Type) [Wire S] {αs : List Type} (fs : Fields αs) (name : String)
    (required : List Nat) : Prop where
  succeeds : ∀ a : ArrayText, fs.ReadEach (a.items.map String.toList) →
    a.items.length ≤ αs.length →
      ((∃ s, ofText S a.text = .ok s) ↔ ∀ j ∈ required, j < a.items.length)
  same : ∀ a : ArrayText, fs.ReadEach (a.items.map String.toList) → a.items.length ≤ αs.length →
    ∀ s, ofText S a.text = .ok s →
      ∀ o : ObjectText, o.Spells fs (a.items.map String.toList) → ofText S o.text = .ok s
  /-- The first field that is left out and may not be is the one reported. -/
  tooShort : ∀ a : ArrayText, fs.ReadEach (a.items.map String.toList) →
    a.items.length ≤ αs.length → ∀ j, required.find? (a.items.length ≤ ·) = some j →
      ofText S a.text = .error (.wrongLength j name αs.length)
  tooLong : ∀ a : ArrayText, fs.ReadEach (a.items.map String.toList) →
    αs.length < a.items.length → ofText S a.text = .error .trailingCharacters

namespace Record

variable {αs : List Type} {r : Record S αs}

theorem whole_array (a : ArrayText) :
    r.reader.whole a.chars =
      match readArray r.name αs.length 0 r.fields
        (separated (a.items.map String.toList) ++ (a.gap ++ ']' :: a.trail)) with
      | .error e => .error e
      | .ok (vs, rest) =>
        if skipBlank rest = [] then .ok (Values.apply r.build vs)
        else .error .trailingCharacters := by
  have values : (Reader.afterBlanks r.readValues readValues_le).run a.chars =
      readArray r.name αs.length 0 r.fields
        (separated (a.items.map String.toList) ++ (a.gap ++ ']' :: a.trail)) :=
    Reader.afterBlanks_run (skipBlank_blank_cons a.lead_blank (c := '[') rfl _)
  rw [reader, Reader.whole_map, Reader.whole, values]
  cases readArray r.name αs.length 0 r.fields
    (separated (a.items.map String.toList) ++ (a.gap ++ ']' :: a.trail)) with
  | error e => rfl
  | ok read =>
    dsimp only
    split <;> rfl

namespace Lawful

variable (lawful : r.Lawful) (items : r.fields.Items) (a : ArrayText)
include items

theorem whole_array_of_listed {vs : Values αs}
    (listed : r.fields.Listed (a.items.map String.toList) vs) :
    r.reader.whole a.chars = .ok (Values.apply r.build vs) := by
  have accepts := readArray_accepts items r.name αs.length a.gap_blank a.trail .nil (i := 0) listed
  rw [decide_eq_true rfl, joined_true, List.nil_append] at accepts
  rw [whole_array, accepts]
  exact if_pos (skipBlank_eq_nil.mpr a.trail_blank)

theorem whole_array_tooShort (reads : r.fields.ReadEach (a.items.map String.toList)) {j : Nat}
    (first : (r.fields.unomitted 0).find? (a.items.length ≤ ·) = some j) :
    r.reader.whole a.chars = .error (.wrongLength j r.name αs.length) := by
  have rejects := readArray_tooShort items r.name αs.length a.gap_blank a.trail .nil (i := 0)
    (j := j) reads (by simpa using first)
  rw [decide_eq_true rfl, joined_true, List.nil_append] at rejects
  rw [whole_array, rejects]

theorem whole_array_tooLong (notEmpty : αs ≠ [])
    (reads : r.fields.ReadEach (a.items.map String.toList)) (long : αs.length < a.items.length) :
    r.reader.whole a.chars = .error .trailingCharacters := by
  have rejects := readArray_tooLong items r.name αs.length a.gap_blank a.trail .nil (i := 0)
    reads (by simpa using long) fun empty => absurd empty notEmpty
  rw [decide_eq_true rfl, joined_true, List.nil_append] at rejects
  rw [whole_array, rejects]

/-- An array that is read has an item for every field that it may not leave out. -/
theorem reaches_of_whole (reads : r.fields.ReadEach (a.items.map String.toList)) {s : S}
    (read : r.reader.whole a.chars = .ok s) : ∀ j ∈ r.fields.unomitted 0, j < a.items.length := by
  cases first : (r.fields.unomitted 0).find? (a.items.length ≤ ·) with
  | none => simpa using first
  | some j =>
    rw [whole_array_tooShort items a reads first] at read
    cases read

theorem listed_of_whole (notEmpty : αs ≠ []) (reads : r.fields.ReadEach (a.items.map String.toList))
    {s : S} (read : r.reader.whole a.chars = .ok s) :
    ∃ vs, r.fields.Listed (a.items.map String.toList) vs ∧ s = Values.apply r.build vs := by
  have short : a.items.length ≤ αs.length := by
    by_contra long
    rw [whole_array_tooLong items a notEmpty reads (Nat.not_le.mp long)] at read
    cases read
  obtain ⟨vs, listed⟩ := Fields.exists_listed (i := 0) reads (by simpa using short)
    (by simpa using reaches_of_whole items a reads read)
  rw [whole_array_of_listed items a listed] at read
  exact ⟨vs, listed, (Except.ok.inj read).symm⟩

include lawful

theorem whole_of_spells {vs : Values αs}
    (listed : r.fields.Listed (a.items.map String.toList) vs) {o : ObjectText}
    (spells : o.Spells r.fields (a.items.map String.toList)) :
    r.reader.whole o.chars = .ok (Values.apply r.build vs) := by
  have keys : o.members.map Member.key = (r.fields.keys.zip (a.items.map String.toList)).map
      Prod.fst := by
    rw [← show _ = _ from spells, List.map_map]
    rfl
  have sublist : (o.members.map Member.key).Sublist r.fields.keys := by
    rw [keys]
    exact map_fst_zip_sublist _ _
  have once : Once r.fields.keys o.members :=
    fun key _ => List.nodup_iff_count.mp (lawful.nodup.sublist sublist) key
  have fits : ∀ m ∈ o.members, m.Fits r.fields := fun m mem =>
    ⟨Fields.fits_of_listed lawful.nodup spells listed m mem,
      fun unknown => absurd (sublist.subset (List.mem_map_of_mem mem)) unknown⟩
  have holds := Fields.holds_of_listed lawful.nodup spells items listed [] nofun
  rw [whole_object lawful.persistent lawful.nodup fits once]
  exact congrArg (Except.map _) (Fields.complete_of_holds holds)

omit a

/-- A record is read by the places of the items if these may be items of an array. -/
theorem readsByPlace (notEmpty : αs ≠ []) {required : List Nat}
    (same : r.fields.unomitted 0 = required) :
    @ReadsByPlace S r.wire αs r.fields r.name required := by
  subst same
  let := r.wire
  have listed (a : ArrayText) (reads : r.fields.ReadEach (a.items.map String.toList))
      (fits : a.items.length ≤ αs.length)
      (far : ∀ j ∈ r.fields.unomitted 0, j < a.items.length) :
      ∃ vs, r.fields.Listed (a.items.map String.toList) vs ∧
        ofText S a.text = .ok (Values.apply r.build vs) := by
    obtain ⟨vs, listed⟩ := Fields.exists_listed (i := 0) reads (by simpa using fits)
      (by simpa using far)
    refine ⟨vs, listed, ?_⟩
    rw [ofText, ArrayText.text, String.toList_ofList]
    exact whole_array_of_listed items a listed
  have far (a : ArrayText) (reads : r.fields.ReadEach (a.items.map String.toList)) (s : S)
      (read : ofText S a.text = .ok s) : ∀ j ∈ r.fields.unomitted 0, j < a.items.length := by
    rw [ofText, ArrayText.text, String.toList_ofList] at read
    exact reaches_of_whole items a reads read
  constructor
  · intro a reads fits
    constructor
    · rintro ⟨s, read⟩
      exact far a reads s read
    · intro enough
      obtain ⟨vs, -, read⟩ := listed a reads fits enough
      exact ⟨_, read⟩
  · intro a reads fits s read o spells
    obtain ⟨vs, values, again⟩ := listed a reads fits (far a reads s read)
    rw [again] at read
    obtain rfl := Except.ok.inj read
    rw [ofText, ObjectText.text, String.toList_ofList]
    exact whole_of_spells lawful items a values spells
  · intro a reads _ j first
    rw [ofText, ArrayText.text, String.toList_ofList]
    exact whole_array_tooShort items a reads first
  · intro a reads long
    rw [ofText, ArrayText.text, String.toList_ofList]
    exact whole_array_tooLong items a notEmpty reads long

end Lawful

end Record

end Spindle.Json
