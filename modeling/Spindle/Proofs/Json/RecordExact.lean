import Spindle.Proofs.Json.Exact
import Spindle.Proofs.Json.ListMember

/-!
# Records that are read are JSON

The converse of `ObjectForm` and `ArrayForm`: a text that is read as a record is an object or an
array, and every member or item of it is found again as a text of its own. The blanks behind a value
are taken to belong to it.
-/

namespace Spindle.Json

/-- A reader of which every reading persists, does not mind blanks in front, and gives its text. -/
structure Reader.Regular (r : Reader α) : Prop where
  persistent : r.Persistent
  skip : ∀ s, r.run (skipBlank s) = r.run s
  exact : r.Exact

theorem Reader.map_map (r : Reader α) (f : α → β) (g : β → γ) :
    (r.map f).map g = r.map (g ∘ f) := by
  show (⟨_, _⟩ : Reader γ) = ⟨_, _⟩
  rw [Reader.mk.injEq]
  funext s
  simp only [map]
  cases r.run s <;> rfl

theorem Reader.Regular.map {r : Reader α} (regular : r.Regular) (f : α → β) :
    (r.map f).Regular where
  persistent := regular.persistent.map f
  skip s := by simp only [Reader.map, regular.skip]
  exact := Reader.Exact.map regular.exact f

theorem skipped_regular : skipped.Regular where
  persistent := skipped_persistent
  skip s := by simp only [skipped, Reader.map, Document.run_skipBlank]
  exact run := by
    obtain ⟨text, split, json⟩ := skipped_form run
    exact ⟨text, split, json, skipped_whole json⟩

/-- A field whose value is found again in what has been read. -/
structure Field.Exact (f : Field α) : Prop extends Field.Item f where
  exact : f.reader.Exact

theorem Field.Exact.regular {f : Field α} (field : f.Exact) : f.reader.Regular :=
  ⟨field.persistent, field.skip, field.exact⟩

abbrev Fields.Exact {αs : List Type} (fs : Fields αs) : Prop := fs.All fun _ f => f.Exact

namespace Field.Exact

variable [Wire α] [ExactWire α]

theorem required (key : String) : (Field.required key : Field α).Exact :=
  ⟨.required key, ExactWire.exact⟩

theorem defaulted (key : String) (default : α) : (Field.defaulted key default).Exact :=
  ⟨.defaulted key default, ExactWire.exact⟩

end Field.Exact

namespace Fields

variable {αs : List Type} {fs : Fields αs}

theorem Exact.items (exact : fs.Exact) : fs.Items := All.imp (fun _ _ f => f.toItem) exact

theorem Exact.persistent (exact : fs.Exact) : fs.Persistent :=
  All.imp (fun _ _ f => f.persistent) exact

theorem All.of_find? {P : (α : Type) → Field α → Prop} (all : fs.All P) {key : String}
    {f : Field α} (found : fs.find? key = some ⟨α, f⟩) : P α f := by
  induction αs with
  | nil => cases found
  | cons β αs ih =>
    obtain ⟨g, fs⟩ := fs
    rw [find?] at found
    split at found
    · cases found
      exact all.1
    · exact ih all.2 found

/-! ### The place of a key -/

/-- A key that is free has a field, and is read as it. -/
theorem place_eq_free {slots : Slots αs} {key : String} {r : Reader (Slots αs)}
    (free : fs.place slots key = .free r) :
    ∃ (α : Type) (f : Field α) (put : α → Slots αs),
      fs.find? key = some ⟨α, f⟩ ∧ r = f.reader.map put := by
  induction αs with
  | nil => cases free
  | cons α αs ih =>
    obtain ⟨f, fs⟩ := fs
    obtain ⟨slot, slots⟩ := slots
    by_cases same : f.key = key
    · cases slot with
      | some v => simp [place, same] at free
      | none =>
        rw [place_of_key same] at free
        cases free
        exact ⟨α, f, _, if_pos same, rfl⟩
    · rw [place_of_other same] at free
      cases placed : place fs slots key with
      | unknown =>
        rw [placed] at free
        cases free
      | taken =>
        rw [placed] at free
        cases free
      | free r' =>
        rw [placed] at free
        cases free
        obtain ⟨β, g, put, found, rfl⟩ := ih placed
        exact ⟨β, g, _, by rw [find?, if_neg same, found], Reader.map_map _ _ _⟩

theorem notMem_of_unknown {slots : Slots αs} {key : String}
    (unknown : fs.place slots key = .unknown) : key ∉ fs.keys := by
  induction αs with
  | nil => exact List.not_mem_nil
  | cons α αs ih =>
    obtain ⟨f, fs⟩ := fs
    obtain ⟨slot, slots⟩ := slots
    by_cases same : f.key = key
    · cases slot <;> simp [place, same] at unknown
    · rw [place_of_other same] at unknown
      have others : place fs slots key = .unknown := by
        cases placed : place fs slots key with
        | unknown => rfl
        | taken => rw [placed] at unknown; cases unknown
        | free r => rw [placed] at unknown; cases unknown
      intro mem
      obtain known | known := List.mem_cons.mp mem
      · exact same known.symm
      · exact ih others known

/-- No member in front has a key that is free. -/
theorem fresh_of_free {ms : List Member} (fits : ∀ m ∈ ms, m.Fits fs) {key : String}
    {r : Reader (Slots αs)} (free : fs.place (fs.filled ms) key = .free r) :
    ∀ d ∈ ms, d.key ≠ key := by
  have parses : ∀ m ∈ ms, fs.All fun _ f => m.key = f.key → ∃ v, f.reader.whole m.value = .ok v :=
    fun m mem => (fits m mem).known
  clear fits
  induction αs with
  | nil => cases free
  | cons α αs ih =>
    obtain ⟨f, fs⟩ := fs
    by_cases same : f.key = key
    · intro d mem eq
      have present : f.key ∈ ms.map Member.key := by
        rw [same, ← eq]
        exact List.mem_map_of_mem mem
      obtain ⟨v, given⟩ := Field.given_isSome (fun m mem => (parses m mem).1) present
      rw [filled, given] at free
      simp [place, same] at free
    · rw [filled, place_of_other same] at free
      cases placed : place fs (filled fs ms) key with
      | unknown =>
        rw [placed] at free
        cases free
      | taken =>
        rw [placed] at free
        cases free
      | free r' => exact ih placed fun m mem => (parses m mem).2

end Fields

theorem Once.concat {known : List String} {ms : List Member} {m : Member} (once : Once known ms)
    (fresh : m.key ∈ known → ∀ d ∈ ms, d.key ≠ m.key) : Once known (ms ++ [m]) := by
  intro key mem
  have before := once key mem
  rw [List.map_append, List.count_append, List.map_singleton]
  by_cases same : m.key = key
  · subst same
    have none : (ms.map Member.key).count m.key = 0 := by
      rw [List.count_eq_zero]
      intro found
      obtain ⟨d, mem', eq⟩ := List.mem_map.mp found
      exact fresh mem d mem' eq
    rw [none, List.count_singleton_self]
  · rw [List.count_singleton, beq_eq_false_iff_ne.mpr same]
    simpa using before

theorem Member.wellFormed (m : Member) : m.WellFormed where
  before := m.before_blank
  body := by
    obtain ⟨body, isBody, text, -⟩ := Quoted.read_form m.spells
    have same : m.body = body := by simpa using text
    rwa [same]
  after := m.after_blank

theorem isJson_object {ms : List Member} {inner : List Char} (json : ∀ m ∈ ms, IsJson m.value)
    (blank : Blank inner) (closed : ms ≠ [] → inner = []) :
    IsJson ('\x7b' :: (separated (ms.map fun m => m.chars) ++ (inner ++ ['\x7d']))) := by
  by_cases empty : ms = []
  · subst empty
    exact .emptyObject blank
  · have texts : (ms.map Member.toMemberText).map MemberText.chars = ms.map fun m => m.chars := by
      rw [List.map_map]
      rfl
    rw [closed empty, List.nil_append, ← texts]
    refine .object (by simpa using empty) ?_ ?_
    · intro m mem
      obtain ⟨d, -, rfl⟩ := List.mem_map.mp mem
      exact d.wellFormed
    · intro m mem
      obtain ⟨d, found, rfl⟩ := List.mem_map.mp mem
      exact json d found

namespace Record

/-! ### Objects -/

theorem nextMember_form {first : Bool} {s t : List Char}
    (next : nextMember first s = .ok (.key t)) (start : first = true ∨ skipBlank s = s) :
    ∃ b, Blank b ∧ s = due first (b ++ '"' :: t) := by
  have found := nextMember_eq_key.mp next
  cases first with
  | true =>
    obtain ⟨b, blank, text, -⟩ := skipBlank_form (show skipBlank s = '"' :: t from found)
    exact ⟨b, blank, text⟩
  | false =>
    obtain ⟨s', comma, quote⟩ := show ∃ s', skipBlank s = ',' :: s' ∧ skipBlank s' = '"' :: t
      from found
    obtain ⟨b, blank, text, -⟩ := skipBlank_form quote
    refine ⟨b, blank, ?_⟩
    rw [← start.resolve_left nofun, comma, text]
    rfl

section
variable {αs : List Type} {fs : Fields αs}

theorem run_object_skipBlank (state : Bool × Slots αs) (s : List Char) :
    (object fs).run state (skipBlank s) = (object fs).run state s := by
  have same : (object fs).step state (skipBlank s) = (object fs).step state s := by
    show stepObject _ _ _ = stepObject _ _ _
    have next : nextMember state.1 (skipBlank s) = nextMember state.1 s := by
      rw [nextMember, nextMember, skipBlank_skipBlank]
    rw [stepObject, stepObject, next]
  rw [Loop.run_eq, same, ← Loop.run_eq]

/-- What a step reads besides the value: the key, which has a place, and the colon. -/
theorem stepObject_again {slots : Slots αs} {first : Bool} {s t : List Char}
    {state : Bool × Slots αs} (step : stepObject fs (first, slots) s = .ok (.again state t))
    (start : first = true ∨ skipBlank s = s) :
    ∃ (b body after u : List Char) (key : String) (r : Reader (Slots αs)),
      Blank b ∧ Quoted.read true (body ++ ['"']) = .ok (key.toList, []) ∧ Blank after ∧
        s = due first (b ++ '"' :: (body ++ '"' :: (after ++ ':' :: u))) ∧
        (fs.place slots key = .unknown ∧ r = skipped.map (fun () => slots) ∨
          fs.place slots key = .free r) ∧
        r.run u = .ok (state.2, t) ∧ state.1 = false := by
  obtain ⟨_, _, -, -, ⟨⟩⟩ | ⟨v, key, s', r, next, token, place, member⟩ := stepObject_eq_ok.mp step
  obtain ⟨b, blank, text⟩ := nextMember_form next start
  obtain ⟨body, -, text', spells⟩ := Quoted.read_form token
  have spelled : Quoted.read true (body ++ ['"']) = .ok ((String.ofList key).toList, []) := by
    rw [String.toList_ofList]
    exact spells []
  obtain ⟨u, slots', _, colon, value, ⟨⟩⟩ := readMember_eq_ok.mp member
  obtain ⟨after, after_blank, split⟩ := Document.readColon_form colon
  exact ⟨b, body, after, u, String.ofList key, r, blank, spelled, after_blank,
    by rw [text, text', split], place, value, rfl⟩

variable (nodup : fs.keys.Nodup) (exact : fs.Exact)

include exact in
theorem regular_of_place {slots : Slots αs} {key : String} {r : Reader (Slots αs)}
    (place : fs.place slots key = .unknown ∧ r = skipped.map (fun () => slots) ∨
      fs.place slots key = .free r) : r.Regular := by
  obtain ⟨-, rfl⟩ | free := place
  · exact skipped_regular.map _
  · obtain ⟨α, f, put, found, rfl⟩ := Fields.place_eq_free free
    exact (exact.of_find? found).regular.map put

include nodup

/-- A member whose value is read at the place of its key fills the field of that key. -/
theorem fits_of_place {ms : List Member} (fits : ∀ m ∈ ms, m.Fits fs) {m : Member}
    (json : IsJson m.value) {r : Reader (Slots αs)}
    (place : fs.place (fs.filled ms) m.key = .unknown ∧
        r = skipped.map (fun () => fs.filled ms) ∨
      fs.place (fs.filled ms) m.key = .free r)
    {slots : Slots αs} (reads : r.whole m.value = .ok slots) :
    m.Fits fs ∧ (m.key ∈ fs.keys → ∀ d ∈ ms, d.key ≠ m.key) ∧ slots = fs.filled (ms ++ [m]) := by
  obtain ⟨unknown, rfl⟩ | free := place
  · have notMem := Fields.notMem_of_unknown unknown
    rw [Reader.whole_map, skipped_whole json] at reads
    refine ⟨⟨Fields.all_of_notMem notMem, fun _ => json⟩, fun known => absurd known notMem, ?_⟩
    rw [Fields.filled_append_of_notMem notMem]
    exact (Except.ok.inj reads).symm
  · have fresh := Fields.fresh_of_free fits free
    obtain ⟨α, f, put, found, rfl⟩ := Fields.place_eq_free free
    rw [Reader.whole_map] at reads
    cases value : f.reader.whole m.value with
    | error e =>
      rw [value] at reads
      cases reads
    | ok v =>
      have known := Fields.mem_keys_of_find? found
      have parses := Fields.all_of_find? (P := fun _ f => ∃ v, f.reader.whole m.value = .ok v)
        nodup found ⟨v, value⟩
      obtain ⟨r, free', filled⟩ := Fields.place_of_mem nodup known fresh parses
      rw [free] at free'
      cases free'
      rw [Reader.whole_map, reads] at filled
      exact ⟨⟨parses, fun unknown => absurd known unknown⟩, fun _ => fresh, Except.ok.inj filled⟩

include exact

/-- The member that a step has read. -/
theorem stepObject_form {ms : List Member} (fits : ∀ m ∈ ms, m.Fits fs) {first : Bool}
    {s t : List Char} {state : Bool × Slots αs}
    (step : stepObject fs (first, fs.filled ms) s = .ok (.again state t))
    (start : first = true ∨ skipBlank s = s) :
    ∃ m : Member, m.Fits fs ∧ IsJson m.value ∧ (m.key ∈ fs.keys → ∀ d ∈ ms, d.key ≠ m.key) ∧
      state = (false, fs.filled (ms ++ [m])) ∧ s = due first m.chars ++ skipBlank t := by
  obtain ⟨b, body, after, u, key, r, blank, spells, after_blank, text, place, run, later⟩ :=
    stepObject_again step start
  have regular := regular_of_place exact place
  obtain ⟨d, split, json, reads⟩ := regular.exact run
  obtain ⟨gap, gap_blank, rest⟩ := skipBlank_split t
  have padded := Reader.whole_pad regular.persistent regular.skip reads .nil gap_blank
  let m : Member := ⟨⟨b, body, after, d ++ gap⟩, key, blank, spells, after_blank⟩
  obtain ⟨fits, fresh, filled⟩ := fits_of_place nodup fits (m := m) (json.after gap_blank)
    place padded
  refine ⟨m, fits, json.after gap_blank, fresh, Prod.ext later filled, ?_⟩
  rw [text, split, rest, ← due_append]
  simp [m, MemberText.chars, ← rest]

/-- Every member of an object is a text of its own, with the blanks around it. -/
theorem object_form {ms : List Member} (fits : ∀ m ∈ ms, m.Fits fs) (once : Once fs.keys ms)
    {first : Bool} {s rest : List Char} {vs : Values αs}
    (run : (object fs).run (first, fs.filled ms) s = .ok (vs, rest))
    (start : first = true ∨ skipBlank s = s) :
    ∃ (others : List Member) (inner : List Char),
      (∀ m ∈ others, m.Fits fs ∧ IsJson m.value) ∧ Once fs.keys (ms ++ others) ∧
        fs.complete (fs.filled (ms ++ others)) = .ok vs ∧ Blank inner ∧
        (first = false ∨ others ≠ [] → inner = []) ∧
        s = joined first (others.map fun m => m.chars) ++ (inner ++ '\x7d' :: rest) := by
  induction len : s.length using Nat.strongRecOn generalizing ms first s with
  | ind n ih =>
    obtain done | ⟨state, t, step, run⟩ := Loop.run_eq_ok.mp run
    · obtain ⟨found, complete⟩ := stepObject_done.mp done
      have closed : first = false → skipBlank s = s :=
        fun later => start.resolve_left (by rw [later]; nofun)
      obtain ⟨gap, blank, closed, text⟩ := skipBlank_gap found closed
      exact ⟨[], gap, nofun, by rwa [List.append_nil], by rwa [List.append_nil], blank,
        fun later => closed (later.resolve_right fun none => none rfl), text⟩
    · have shorter := (object fs).shorter step
      obtain ⟨m, member, json, fresh, rfl, text⟩ := stepObject_form nodup exact fits step start
      rw [← run_object_skipBlank] at run
      have less : (skipBlank t).length < n := by
        have dropped := length_skipBlank_le t
        simp only [Turn.rest] at shorter
        omega
      have fits' : ∀ d ∈ ms ++ [m], d.Fits fs := by
        intro d mem
        obtain mem | mem := List.mem_append.mp mem
        · exact fits d mem
        · rw [List.mem_singleton.mp mem]
          exact member
      obtain ⟨others, inner, all, once, complete, blank, closed, tail⟩ :=
        ih _ less fits' (once.concat fresh) run (.inr (skipBlank_skipBlank t)) rfl
      obtain rfl := closed (.inl rfl)
      rw [← List.append_cons] at once complete
      refine ⟨m :: others, [], ?_, once, complete, .nil, fun _ => rfl, ?_⟩
      · exact List.forall_mem_cons.mpr ⟨⟨member, json⟩, all⟩
      · rw [joined_false] at tail
        rw [text, tail, List.map_cons, joined, List.append_assoc]

end

/-! ### Arrays -/

theorem listed_of_beyond {αs : List Type} {fs : Fields αs} {i : Nat} {vs : Values αs}
    (beyond : fs.beyond i = .ok vs) : fs.Listed [] vs := by
  induction αs generalizing i with
  | nil => rfl
  | cons α αs ih =>
    obtain ⟨f, fs⟩ := fs
    rw [Fields.beyond] at beyond
    split at beyond
    · cases beyond
    · rename_i v default
      split at beyond
      · cases beyond
      · rename_i others
        cases beyond
        exact ⟨default, ih others⟩

theorem endArray_skipBlank (s : List Char) : endArray (skipBlank s) = endArray s := by
  rw [endArray, endArray, skipBlank_skipBlank]

theorem readArray_skipBlank {αs : List Type} (name : String) (size i : Nat) (fs : Fields αs)
    (s : List Char) : readArray name size i fs (skipBlank s) = readArray name size i fs s := by
  cases αs with
  | nil =>
    obtain ⟨⟩ := fs
    rw [readArray, readArray, endArray_skipBlank]
  | cons α αs =>
    obtain ⟨f, fs⟩ := fs
    rw [readArray, readArray, nextItem_skipBlank]

theorem readArray_form {αs : List Type} {fs : Fields αs} (exact : fs.Exact) {name : String}
    {size i : Nat} {s rest : List Char} {vs : Values αs}
    (read : readArray name size i fs s = .ok (vs, rest)) (start : i ≠ 0 → skipBlank s = s) :
    ∃ ds gap, fs.Listed ds vs ∧ (∀ d ∈ ds, IsJson d) ∧ Blank gap ∧
      (i ≠ 0 ∨ ds ≠ [] → gap = []) ∧ s = joined (i = 0) ds ++ (gap ++ ']' :: rest) := by
  induction αs generalizing i s with
  | nil =>
    obtain ⟨gap, blank, closed, text⟩ := skipBlank_gap (readArray_nil.mp read) start
    exact ⟨[], gap, rfl, List.forall_mem_nil _, blank,
      fun h => closed (h.resolve_right fun some => some rfl), text⟩
  | cons α αs ih =>
    obtain ⟨f, fs⟩ := fs
    obtain ⟨v, vs⟩ := vs
    obtain ⟨field, exact⟩ := exact
    obtain ⟨next, values⟩ | ⟨t, u, next, item, others⟩ := readArray_cons.mp read
    · obtain ⟨gap, blank, closed, text⟩ := skipBlank_gap (nextItem_eq_close.mp next) start
      exact ⟨[], gap, listed_of_beyond values, List.forall_mem_nil _, blank,
        fun h => closed (h.resolve_right fun some => some rfl), text⟩
    · have start' : decide (i = 0) = true ∨ skipBlank s = s := by
        by_cases first : i = 0
        · exact .inl (decide_eq_true first)
        · exact .inr (start first)
      obtain ⟨b, blank, text, -⟩ := nextItem_form next start'
      obtain ⟨d, split, json, reads⟩ := field.exact item
      obtain ⟨gap, gap_blank, after⟩ := skipBlank_split u
      rw [← readArray_skipBlank] at others
      obtain ⟨ds, none, listed, jsons, -, closed, tail⟩ :=
        ih exact others fun _ => skipBlank_skipBlank u
      obtain rfl := closed (.inl (Nat.succ_ne_zero i))
      rw [decide_eq_false (Nat.succ_ne_zero i), joined_false] at tail
      refine ⟨(b ++ d ++ gap) :: ds, [], ⟨?_, listed⟩, ?_, .nil, fun _ => rfl, ?_⟩
      · exact Reader.whole_pad field.persistent field.skip reads blank gap_blank
      · exact List.forall_mem_cons.mpr ⟨json.pad blank gap_blank, jsons⟩
      · rw [text, split, after, tail, joined]
        simp [due_append]

/-! ### Either form -/

/-- What an object says of a record. -/
structure Spelled {αs : List Type} (fs : Fields αs) (o : ObjectText) (vs : Values αs) : Prop where
  fits : o.Fits fs
  json : ∀ m ∈ o.members, IsJson m.value
  complete : fs.complete (fs.filled o.members) = .ok vs

/-- What an array says of a record. -/
structure Ranged {αs : List Type} (fs : Fields αs) (a : ArrayText) (vs : Values αs) : Prop where
  listed : fs.Listed (a.items.map String.toList) vs
  json : ∀ d ∈ a.items, IsJson d.toList

section
variable {αs : List Type} {r : Record S αs} (nodup : r.fields.keys.Nodup) (exact : r.fields.Exact)
include exact nodup

omit nodup in
theorem array_form {b t rest : List Char} {vs : Values αs} (blank : Blank b)
    (reads : readArray r.name αs.length 0 r.fields t = .ok (vs, rest)) :
    ∃ a : ArrayText, a.trail = [] ∧ b ++ '[' :: t = a.chars ++ rest ∧ Ranged r.fields a vs ∧
      IsJson a.chars := by
  obtain ⟨ds, gap, listed, json, gap_blank, closed, tail⟩ :=
    readArray_form exact reads fun later => absurd rfl later
  rw [decide_eq_true rfl, joined_true] at tail
  have back : (ds.map String.ofList).map String.toList = ds := by
    rw [List.map_map]
    simp [Function.comp_def]
  let a : ArrayText := ⟨b, ds.map String.ofList, gap, [], blank, gap_blank, .nil⟩
  have chars : a.chars = b ++ '[' :: (separated ds ++ (gap ++ [']'])) := by
    rw [ArrayText.chars, back]
  refine ⟨a, rfl, by rw [tail, chars]; simp, ⟨back.symm ▸ listed, ?_⟩, ?_⟩
  · intro d mem
    obtain ⟨t, found, rfl⟩ := List.mem_map.mp mem
    rw [String.toList_ofList]
    exact json t found
  · rw [chars]
    exact (isJson_list json gap_blank fun some => closed (.inr some)).before blank

theorem object_text_form {b t rest : List Char} {vs : Values αs} (blank : Blank b)
    (run : (object r.fields).run (true, .empty αs) t = .ok (vs, rest)) :
    ∃ o : ObjectText, o.trail = [] ∧ b ++ '\x7b' :: t = o.chars ++ rest ∧ Spelled r.fields o vs ∧
      IsJson o.chars := by
  rw [← r.fields.filled_nil] at run
  obtain ⟨ms, inner, all, once, complete, inner_blank, closed, tail⟩ :=
    object_form nodup exact (fun m mem => absurd mem List.not_mem_nil) (fun _ _ => by simp) run
      (.inl rfl)
  rw [joined_true] at tail
  rw [List.nil_append] at once complete
  let o : ObjectText := ⟨b, ms, inner, [], blank, inner_blank, .nil⟩
  have json : IsJson o.chars := (isJson_object (fun m mem => (all m mem).2) inner_blank
    fun some => closed (.inr some)).before blank
  refine ⟨o, rfl, ?_, ⟨⟨once, fun m mem => (all m mem).1⟩, fun m mem => (all m mem).2, complete⟩,
    json⟩
  rw [tail, ObjectText.chars]
  simp [o]

/-- A record that is read stands in the text as an object or as an array. -/
theorem run_form {s rest : List Char} {v : S} (run : r.reader.run s = .ok (v, rest)) :
    ∃ vs, v = Values.apply r.build vs ∧
      ((∃ o : ObjectText, o.trail = [] ∧ s = o.chars ++ rest ∧ Spelled r.fields o vs ∧
          IsJson o.chars) ∨
        ∃ a : ArrayText, a.trail = [] ∧ s = a.chars ++ rest ∧ Ranged r.fields a vs ∧
          IsJson a.chars) := by
  obtain ⟨vs, values, rfl⟩ := Reader.map_eq_ok.mp run
  obtain ⟨c, t, found, values⟩ := Reader.afterBlanks_eq_ok.mp values
  obtain ⟨b, blank, text, -⟩ := skipBlank_form found
  refine ⟨vs, rfl, ?_⟩
  rw [text]
  obtain ⟨rfl, array⟩ | ⟨rfl, members⟩ := readValues_eq_ok.mp values
  · exact .inr (array_form exact blank array)
  · exact .inl (object_text_form nodup exact blank members)

theorem whole_of_spelled {o : ObjectText} {vs : Values αs} (spelled : Spelled r.fields o vs) :
    r.reader.whole o.chars = .ok (Values.apply r.build vs) := by
  rw [whole_object exact.persistent nodup spelled.fits.members spelled.fits.once, spelled.complete]
  rfl

omit nodup in
theorem whole_of_ranged {a : ArrayText} {vs : Values αs} (ranged : Ranged r.fields a vs) :
    r.reader.whole a.chars = .ok (Values.apply r.build vs) :=
  Lawful.whole_array_of_listed exact.items a ranged.listed

theorem reader_exact : r.reader.Exact := by
  intro s v rest run
  obtain ⟨vs, rfl, ⟨o, -, text, spelled, json⟩ | ⟨a, -, text, ranged, json⟩⟩ :=
    run_form nodup exact run
  · exact ⟨o.chars, text, json, whole_of_spelled nodup exact spelled⟩
  · exact ⟨a.chars, text, json, whole_of_ranged exact ranged⟩

/-- The text of a record is that of an object or of an array. -/
theorem whole_form {s : List Char} {v : S} (reads : r.reader.whole s = .ok v) :
    ∃ vs, v = Values.apply r.build vs ∧
      ((∃ o : ObjectText, s = o.chars ∧ Spelled r.fields o vs) ∨
        ∃ a : ArrayText, s = a.chars ∧ Ranged r.fields a vs) := by
  obtain ⟨trail, blank, run⟩ := Reader.whole_eq_ok.mp reads
  obtain ⟨vs, same, ⟨o, closed, text, spelled, -⟩ | ⟨a, closed, text, ranged, -⟩⟩ :=
    run_form nodup exact run
  · have spelled : Spelled r.fields { o with trail := trail, trail_blank := blank } vs :=
      ⟨⟨spelled.fits.once, spelled.fits.members⟩, spelled.json, spelled.complete⟩
    refine ⟨vs, same, .inl ⟨{ o with trail := trail, trail_blank := blank }, ?_, spelled⟩⟩
    rw [text, ObjectText.chars, ObjectText.chars, closed]
    simp
  · have ranged : Ranged r.fields { a with trail := trail, trail_blank := blank } vs :=
      ⟨ranged.listed, ranged.json⟩
    refine ⟨vs, same, .inr ⟨{ a with trail := trail, trail_blank := blank }, ?_, ranged⟩⟩
    rw [text, ArrayText.chars, ArrayText.chars, closed]
    simp

end

theorem Lawful.exactWire {αs : List Type} {r : Record S αs} (lawful : r.Lawful)
    (exact : r.fields.Exact) : @ExactWire S r.wire :=
  let := r.wire
  { lawful.listItem with exact := reader_exact lawful.nodup exact }

end Record

end Spindle.Json
