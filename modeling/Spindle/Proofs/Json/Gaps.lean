import Spindle.Proofs.Json.Sites

/-!
# Texts with a gap

A text with a gap for a value, inside of any lists, records and optional values. What is put into the
gap is read as it is on its own: its value is that part of the whole, and its fault is the fault of
the whole.
-/

namespace Spindle.Json

/-- A text, given with what stands in its gap. A value that `q` reads there is part of what `r` reads,
and `put` gives the whole for it; all around the gap is in order. -/
inductive Gap : {α β : Type} → Reader α → Reader β → (β → α) → (List Char → List Char) → Prop
  | padded {α : Type} [Wire α] [LawfulWire α] {before after : List Char} (before_blank : Blank before)
      (after_blank : Blank after) :
      Gap (Wire.reader : Reader α) Wire.reader id fun x => before ++ (x ++ after)
  | present {α : Type} [Wire α] [LawfulWire α] :
      Gap (Wire.reader : Reader (Option α)) (Wire.reader : Reader α) some id
  | item {α : Type} [Wire α] [ListItem α] {ds₁ ds₂ : List (List Char)} {vs₁ vs₂ : List α}
      (earlier : EachReads ds₁ vs₁) (later : EachReads ds₂ vs₂) {lead gap trail : List Char}
      (lead_blank : Blank lead) (gap_blank : Blank gap) (trail_blank : Blank trail) :
      Gap (Wire.reader : Reader (List α)) (Wire.reader : Reader α) (fun v => vs₁ ++ v :: vs₂)
        fun x => lead ++ '[' :: (separated (ds₁ ++ x :: ds₂) ++ (gap ++ ']' :: trail))
  | member {S β : Type} {αs : List Type} {r : Record S αs} (lawful : r.Lawful) {o : ObjectText}
      (fits : o.Fits r.fields) {vs : Values αs} (holds : r.fields.Holds o.members vs)
      (p : Position β αs) {earlier later : List Member} {m : Member}
      (members : o.members = earlier ++ m :: later) (key : m.key = (r.fields.at p).key) :
      Gap r.reader (r.fields.at p).reader (fun v => Values.apply r.build (vs.set p v))
        fun x => (o.withValue earlier m later x).chars
  | component {S β : Type} {αs : List Type} {r : Record S αs} (items : r.fields.Items)
      {a : ArrayText} {vs : Values αs} (listed : r.fields.Listed (a.items.map String.toList) vs)
      (p : Position β αs) {earlier later : List String} {d : String}
      (split : a.items = earlier ++ d :: later) (place : earlier.length = p.index) :
      Gap r.reader (r.fields.at p).reader (fun v => Values.apply r.build (vs.set p v))
        fun x => (a.withItem earlier later x).chars
  | nested {α β γ : Type} {r : Reader α} {q : Reader β} {p : Reader γ} {put : β → α} {put' : γ → β}
      {text text' : List Char → List Char} (outer : Gap r q put text) (inner : Gap q p put' text') :
      Gap r p (put ∘ put') (text ∘ text')

/-- A text that starts neither as `null` nor as the end of a list. -/
def Starts (x : List Char) : Prop := ∃ c t, skipBlank x = c :: t ∧ c ≠ ']' ∧ c ≠ 'n'

namespace Starts

variable {x : List Char}

theorem blank_cons {b : List Char} (blank : Blank b) {c : Char} (notBlank : isBlank c = false)
    (notClose : c ≠ ']') (notNull : c ≠ 'n') (s : List Char) : Starts (b ++ c :: s) :=
  ⟨c, s, skipBlank_blank_cons blank notBlank s, notClose, notNull⟩

theorem startsItem (starts : Starts x) : StartsItem x := by
  obtain ⟨c, t, found, notClose, -⟩ := starts
  exact ⟨c, t, found, notClose⟩

theorem not_close (starts : Starts x) : ¬ ClosesList x := by
  obtain ⟨c, t, found, notClose, -⟩ := starts
  rw [ClosesList, found]
  exact fun close => notClose (Option.some.inj close)

theorem notNull (starts : Starts x) : (skipBlank x).head? ≠ some 'n' := by
  obtain ⟨c, t, found, -, notNull⟩ := starts
  rw [found]
  exact fun null => notNull (Option.some.inj null)

end Starts

theorem EachReads.exists_of_mem [Wire α] {ds : List (List Char)} {vs : List α}
    (each : EachReads ds vs) {d : List Char} (mem : d ∈ ds) :
    ∃ v, (Wire.reader : Reader α).whole d = .ok v := by
  induction each with
  | nil => cases mem
  | cons head _ ih =>
    obtain rfl | mem := List.mem_cons.mp mem
    · exact ⟨_, head⟩
    · exact ih mem

theorem Fields.All.at {αs : List Type} {fs : Fields αs} {P : (α : Type) → Field α → Prop}
    (all : fs.All P) (p : Position α αs) : P α (fs.at p) := by
  induction p with
  | here => exact all.1
  | there p ih => exact ih all.2

/-- The fault of an item of an array is the fault of the array. -/
theorem Record.readArray_rejects {αs : List Type} {fs : Fields αs} (items : fs.Items) (name : String)
    (size : Nat) {i : Nat} {ds₁ ds₂ : List (List Char)} {d : List Char} {gap : List Char}
    (gap_blank : Blank gap) (rest : List Char) {vs : Values αs} (listed : fs.Listed (ds₁ ++ d :: ds₂) vs)
    (p : Position α αs) (place : ds₁.length = p.index) {x : List Char} (starts : StartsItem x)
    {e : Error} (fails : (fs.at p).reader.whole x = .error e) (closed : e.isOpen = false)
    {b : List Char} (blank : Blank b) :
    readArray name size i fs (b ++ (joined (i = 0) (ds₁ ++ x :: ds₂) ++ (gap ++ ']' :: rest))) =
      .error e := by
  induction p generalizing i ds₁ b with
  | here =>
    obtain ⟨f, fs⟩ := fs
    obtain rfl := List.length_eq_zero_iff.mp place
    have run : f.reader.run (skipBlank (x ++ (following ds₂ ++ (gap ++ ']' :: rest)))) = .error e := by
      rw [items.1.skip]
      exact items.1.persistent.fails fails closed (delimits_items gap_blank rest ds₂)
    rw [List.nil_append, joined, List.append_assoc, readArray, nextItem_due blank starts]
    dsimp only
    rw [run]
  | there p ih =>
    obtain ⟨f, fs⟩ := fs
    obtain ⟨v, vs⟩ := vs
    cases ds₁ with
    | nil => cases place
    | cons d' ds₁ =>
      obtain ⟨b', blank', step⟩ := readArray_item name size i gap_blank rest items.1 listed.1 fs
        (ds₁ ++ x :: ds₂)
      rw [List.cons_append, step b blank, ih items.2 listed.2 (Nat.succ.inj place) fails blank']
      rfl

/-- What is said of a text put into a gap is said of the whole. -/
structure Frames (r : Reader α) (q : Reader β) (put : β → α) (text : List Char → List Char) :
    Prop where
  starts : ∀ x, Starts x → Starts (text x)
  accepts : ∀ x v, Starts x → q.whole x = .ok v → r.whole (text x) = .ok (put v)
  rejects : ∀ x e, Starts x → q.whole x = .error e → e.isOpen = false → r.whole (text x) = .error e

namespace Frames

theorem trans {r : Reader α} {q : Reader β} {p : Reader γ} {put : β → α} {put' : γ → β}
    {text text' : List Char → List Char} (outer : Frames r q put text)
    (inner : Frames q p put' text') : Frames r p (put ∘ put') (text ∘ text') where
  starts x starts := outer.starts _ (inner.starts x starts)
  accepts x v starts reads := outer.accepts _ _ (inner.starts x starts) (inner.accepts x v starts reads)
  rejects x e starts fails closed :=
    outer.rejects _ e (inner.starts x starts) (inner.rejects x e starts fails closed) closed

/-! ### Blanks, optional values and lists -/

section
variable [Wire α] [LawfulWire α]

theorem padded {before after : List Char} (before_blank : Blank before) (after_blank : Blank after) :
    Frames (Wire.reader : Reader α) Wire.reader id fun x => before ++ (x ++ after) where
  starts x starts := by
    obtain ⟨c, t, found, others⟩ := starts
    refine ⟨c, t ++ after, ?_, others⟩
    rw [skipBlank_append_of_blank before_blank, skipBlank_append found]
  accepts x v starts reads := by
    obtain ⟨b, blank, takes⟩ := (PersistentWire.persistent (α := α)).takes reads
    refine Reader.whole_eq_ok.mpr ⟨b ++ after, blank.append after_blank, ?_⟩
    rw [LawfulWire.leading before_blank, takes after after_blank.delimits]
    rfl
  rejects x e starts fails closed := by
    rw [Reader.whole, LawfulWire.leading before_blank,
      PersistentWire.persistent.fails fails closed after_blank.delimits]

theorem present : Frames (Wire.reader : Reader (Option α)) (Wire.reader : Reader α) some id where
  starts _ starts := starts
  accepts x v starts reads := by
    rw [id, whole_option_of_other starts.notNull, reads]
    rfl
  rejects x e starts fails _ := by
    rw [id, whole_option_of_other starts.notNull, fails]
    rfl

end

theorem item [Wire α] [ListItem α] {ds₁ ds₂ : List (List Char)} {vs₁ vs₂ : List α}
    (earlier : EachReads ds₁ vs₁) (later : EachReads ds₂ vs₂) {lead gap trail : List Char}
    (lead_blank : Blank lead) (gap_blank : Blank gap) (trail_blank : Blank trail) :
    Frames (Wire.reader : Reader (List α)) (Wire.reader : Reader α) (fun v => vs₁ ++ v :: vs₂)
      fun x => lead ++ '[' :: (separated (ds₁ ++ x :: ds₂) ++ (gap ++ ']' :: trail)) where
  starts _ _ := .blank_cons lead_blank rfl (by decide) (by decide) _
  accepts x v _ reads := by
    have each : EachReads (ds₁ ++ x :: ds₂) (vs₁ ++ v :: vs₂) := List.rel_append earlier (.cons reads later)
    exact Reader.whole_eq_ok.mpr ⟨trail, trail_blank, list_accepts each lead_blank gap_blank trail⟩
  rejects x e starts fails closed := by
    have delimits : Delimits (following ds₂ ++ (gap ++ ']' :: trail)) :=
      .following ds₂ (.blank_append gap_blank (.cons rfl trail))
    rw [separated_append_cons, List.append_assoc, Reader.whole,
      list_rejects (fun _ => earlier.exists_of_mem) fails closed starts.not_close lead_blank delimits]

/-! ### Records -/

section
variable {αs : List Type} {r : Record S αs}

theorem member (lawful : r.Lawful) {o : ObjectText} (fits : o.Fits r.fields) {vs : Values αs}
    (holds : r.fields.Holds o.members vs) (p : Position α αs) {earlier later : List Member}
    {m : Member} (members : o.members = earlier ++ m :: later) (key : m.key = (r.fields.at p).key) :
    Frames r.reader (r.fields.at p).reader (fun v => Values.apply r.build (vs.set p v))
      fun x => (o.withValue earlier m later x).chars where
  starts _ _ := .blank_cons o.lead_blank rfl (by decide) (by decide) _
  accepts x v _ reads :=
    Record.whole_withValue lawful.persistent lawful.nodup fits p members key holds reads
  rejects x e starts fails closed := by
    let m' : Member := { m with value := x }
    have text : (o.withValue earlier m later x).chars =
        o.lead ++ '\x7b' :: (separated ((earlier ++ [m']).map fun m => m.chars) ++
          o.behind later) := by
      rw [ObjectText.chars, ObjectText.withValue, List.map_append, List.map_cons,
        separated_append_cons, List.append_assoc, List.map_append]
      rfl
    have found : r.fields.find? m'.key = some ⟨α, r.fields.at p⟩ :=
      (congrArg r.fields.find? key).trans (Fields.find?_at lawful.nodup p)
    have fault : (r.fields.at p).reader.run (m'.value ++ o.behind later) = .error e :=
      (lawful.persistent.at p).fails fails closed (o.delimits_behind later)
    have earlier_fits : ∀ d ∈ earlier, d.Fits r.fields :=
      fun d mem => fits.members d (members ▸ List.mem_append_left _ mem)
    have once : Once r.fields.keys (earlier ++ [m']) := by
      intro key mem
      have bound := fits.once key mem
      rw [members, List.map_append] at bound
      rw [List.map_append]
      refine Nat.le_trans (List.Sublist.count_le key ?_) bound
      exact (List.singleton_sublist.mpr List.mem_cons_self).append_left _
    rw [text]
    exact Record.whole_rejects lawful found fault earlier_fits once o.lead_blank

theorem component (items : r.fields.Items) {a : ArrayText} {vs : Values αs}
    (listed : r.fields.Listed (a.items.map String.toList) vs) (p : Position α αs)
    {earlier later : List String} {d : String} (split : a.items = earlier ++ d :: later)
    (place : earlier.length = p.index) :
    Frames r.reader (r.fields.at p).reader (fun v => Values.apply r.build (vs.set p v))
      fun x => (a.withItem earlier later x).chars where
  starts _ _ := .blank_cons a.lead_blank rfl (by decide) (by decide) _
  accepts x v _ reads := Record.whole_withItem items listed p split place reads
  rejects x e starts fails closed := by
    rw [split, List.map_append, List.map_cons] at listed
    have place : (earlier.map String.toList).length = p.index := by rw [List.length_map, place]
    have fault := Record.readArray_rejects items r.name αs.length (i := 0)
      (a.withItem earlier later x).gap_blank (a.withItem earlier later x).trail listed p place
      starts.startsItem fails closed .nil
    rw [decide_eq_true rfl, joined_true, List.nil_append] at fault
    rw [Record.whole_array, ArrayText.items_withItem, fault]

end

end Frames

/-- Every gap is read as it says. -/
theorem Gap.frames {r : Reader α} {q : Reader β} {put : β → α} {text : List Char → List Char}
    (gap : Gap r q put text) : Frames r q put text := by
  induction gap with
  | padded before_blank after_blank => exact .padded before_blank after_blank
  | present => exact .present
  | item earlier later lead_blank gap_blank trail_blank =>
    exact .item earlier later lead_blank gap_blank trail_blank
  | member lawful fits holds p members key => exact .member lawful fits holds p members key
  | component items listed p split place => exact .component items listed p split place
  | nested _ _ outer inner => exact outer.trans inner

/-! ### The gaps of a record -/

/-- In every text of a record, object or array, there is a gap at the value of a field. -/
structure HasGap (S : Type) [Wire S] {αs : List Type} (fs : Fields αs) (key : String) {α : Type}
    [Wire α] (put : S → α → S) : Prop where
  member : ∀ o : ObjectText, o.Fits fs → ∀ s, ofText S o.text = .ok s →
    ∀ earlier m later, o.members = earlier ++ m :: later → m.key = key →
      Gap (Wire.reader : Reader S) (Wire.reader : Reader α) (put s)
        fun x => (o.withValue earlier m later x).chars
  component : ∀ a : ArrayText, fs.ReadEach (a.items.map String.toList) → ∀ s,
    ofText S a.text = .ok s →
      ∀ earlier d later, a.items = earlier ++ d :: later → fs.keys[earlier.length]? = some key →
        Gap (Wire.reader : Reader S) (Wire.reader : Reader α) (put s)
          fun x => (a.withItem earlier later x).chars

theorem Position.ne_nil (p : Position α αs) : αs ≠ [] := by
  cases p <;> exact List.cons_ne_nil _ _

theorem Fields.key_index {αs : List Type} {fs : Fields αs} (p : Position α αs) :
    fs.keys[p.index]? = some (fs.at p).key := by
  induction p with
  | here => rfl
  | there p ih => exact ih

theorem Fields.index_of_key {αs : List Type} {fs : Fields αs} (nodup : fs.keys.Nodup)
    (p : Position α αs) {i : Nat} (here : fs.keys[i]? = some (fs.at p).key) : i = p.index := by
  obtain ⟨bound, -⟩ := List.getElem?_eq_some_iff.mp here
  exact (List.getElem?_inj bound nodup).mp (here.trans (key_index p).symm)

theorem Record.Lawful.hasGap {αs : List Type} {r : Record S αs} (lawful : r.Lawful)
    (items : r.fields.Items) {α : Type} [Wire α] (p : Position α αs)
    (reader : (r.fields.at p).reader = Wire.reader) {put : S → α → S}
    (set : ∀ vs v, Values.apply r.build (vs.set p v) = put (Values.apply r.build vs) v) :
    @HasGap S r.wire αs r.fields (r.fields.at p).key α _ put := by
  let := r.wire
  constructor
  · intro o fits s reads earlier m later members key
    obtain ⟨vs, holds, rfl⟩ := lawful.holds_of_ofText fits reads
    rw [← funext (set vs), ← reader]
    exact .member lawful fits holds p members key
  · intro a reads s read earlier d later split here
    rw [ofText, ArrayText.text, String.toList_ofList] at read
    obtain ⟨vs, listed, rfl⟩ := listed_of_whole items a p.ne_nil reads read
    rw [← funext (set vs), ← reader]
    exact .component items listed p split (Fields.index_of_key lawful.nodup p here)

end Spindle.Json
