import Spindle.Proofs.Json.RecordExact

/-!
# Where a part stands

A value that a record, a list or an optional value has taken from its text stands there as a text of
its own. Whatever else is put in its place, if it is read in that place, the whole is read, and only
that part of it is another.
-/

namespace Spindle.Json

/-- Between `pre` and `post` stands a part that `q` reads; `put` gives the whole another part. -/
def Site (r : Reader α) (q : Reader β) (put : β → α) (pre post : List Char) : Prop :=
  ∀ x b, q.whole x = .ok b → r.whole (pre ++ (x ++ post)) = .ok (put b)

/-- The part `b` stands at a site of the text. -/
structure Stands (r : Reader α) (q : Reader β) (put : β → α) (s : List Char) (b : β)
    (pre x post : List Char) : Prop where
  text : s = pre ++ (x ++ post)
  reads : q.whole x = .ok b
  site : Site r q put pre post

namespace Stands

variable {r : Reader α} {q : Reader β} {put : β → α} {s pre x post : List Char} {b : β}

/-- A part of a part is a part of the whole. -/
theorem trans (outer : Stands r q put s b pre x post) {p : Reader γ} {put' : γ → β} {c : γ}
    {pre' x' post' : List Char} (inner : Stands q p put' x c pre' x' post') :
    Stands r p (put ∘ put') s c (pre ++ pre') x' (post' ++ post) where
  text := by
    rw [outer.text, inner.text]
    simp
  reads := inner.reads
  site y c reads := by
    have whole := outer.site _ _ (inner.site y c reads)
    simpa using whole

end Stands

/-! ### Optional values -/

theorem whole_option_of_other [Wire α] [LawfulWire α] {x : List Char}
    (other : (skipBlank x).head? ≠ some 'n') :
    (Wire.reader : Reader (Option α)).whole x = ((Wire.reader : Reader α).whole x).map some := by
  have run : (Wire.reader : Reader (Option α)).run x =
      ((Wire.reader : Reader α).run x).map (Prod.map some id) := by
    refine (readOption_of_other rfl other).trans ?_
    rw [run_skipBlank]
    cases (Wire.reader : Reader α).run x with
    | error e => rfl
    | ok read => rfl
  rw [Reader.whole, Reader.whole, run]
  cases (Wire.reader : Reader α).run x with
  | error e => rfl
  | ok read =>
    by_cases done : skipBlank read.2 = [] <;> simp [Except.map, done]

/-- A value that is there has the text of the optional value. -/
theorem stands_in_option [Wire α] [LawfulWire α]
    (notNull : ∀ {x} {v : α}, (Wire.reader : Reader α).whole x = .ok v →
      (skipBlank x).head? ≠ some 'n')
    {s : List Char} {v : α} (reads : (Wire.reader : Reader (Option α)).whole s = .ok (some v)) :
    Stands (Wire.reader : Reader (Option α)) (Wire.reader : Reader α) some s v [] s [] := by
  refine ⟨by simp, ?_, fun x b reads => ?_⟩
  · have other : (skipBlank s).head? ≠ some 'n' := by
      intro null
      obtain ⟨rest, -, run⟩ := Reader.whole_eq_ok.mp reads
      obtain ⟨_, -, -, ⟨⟩⟩ | ⟨other, -⟩ := readOption_eq_ok.mp run
      exact other null
    rw [whole_option_of_other other] at reads
    cases value : (Wire.reader : Reader α).whole s with
    | error e =>
      rw [value] at reads
      cases reads
    | ok w =>
      rw [value] at reads
      cases reads
      rfl
  · rw [List.nil_append, List.append_nil, whole_option_of_other (notNull reads), reads]
    rfl

/-! ### Items of a list -/

theorem separated_split (ts us : List (List Char)) (t : List Char) :
    separated (ts ++ t :: us) = separated (ts ++ [[]]) ++ (t ++ following us) := by
  rw [separated_append_cons, ← List.nil_append t, separated_concat_append]
  simp

section
variable [Wire α] [ExactWire α]

/-- The text of a list is a bracket, its items and a bracket. -/
theorem whole_list_form {s : List Char} {vs : List α}
    (reads : (Wire.reader : Reader (List α)).whole s = .ok vs) :
    ∃ lead ds gap trail, Blank lead ∧ EachReads ds vs ∧ Blank gap ∧ Blank trail ∧
      s = lead ++ '[' :: (separated ds ++ (gap ++ ']' :: trail)) := by
  obtain ⟨trail, trail_blank, run⟩ := Reader.whole_eq_ok.mp reads
  change (Reader.afterBlanks (readList Wire.reader) readList_le).run s = _ at run
  obtain ⟨c, t, found, list⟩ := Reader.afterBlanks_eq_ok.mp run
  obtain ⟨lead, blank, text, -⟩ := skipBlank_form found
  obtain ⟨rfl, ds, gap, each, -, gap_blank, -, tail⟩ := readList_form list
  exact ⟨lead, ds, gap, trail, blank, each, gap_blank, trail_blank, by rw [text, tail]⟩

omit [ExactWire α] in
theorem EachReads.split {ds : List (List Char)} {vs : List α} (each : EachReads ds vs) {i : Nat}
    {v : α} (here : vs[i]? = some v) :
    ∃ ds₁ d ds₂, ds = ds₁ ++ d :: ds₂ ∧ (Wire.reader : Reader α).whole d = .ok v ∧
      ∀ d' b, (Wire.reader : Reader α).whole d' = .ok b →
        EachReads (ds₁ ++ d' :: ds₂) (vs.set i b) := by
  induction each generalizing i with
  | nil => simp at here
  | @cons d w ds vs head tail ih =>
    cases i with
    | zero =>
      obtain rfl : w = v := by simpa using here
      exact ⟨[], d, ds, rfl, head, fun d' b reads => .cons reads tail⟩
    | succ i =>
      obtain ⟨ds₁, d', ds₂, rfl, reads, others⟩ := ih (by simpa using here)
      exact ⟨d :: ds₁, d', ds₂, rfl, reads, fun e b again => .cons head (others e b again)⟩

theorem stands_in_list {s : List Char} {vs : List α}
    (reads : (Wire.reader : Reader (List α)).whole s = .ok vs) {i : Nat} {v : α}
    (here : vs[i]? = some v) :
    ∃ pre x post, Stands (Wire.reader : Reader (List α)) (Wire.reader : Reader α) (vs.set i) s v
      pre x post := by
  obtain ⟨lead, ds, gap, trail, blank, each, gap_blank, trail_blank, text⟩ := whole_list_form reads
  obtain ⟨ds₁, d, ds₂, rfl, item, others⟩ := each.split here
  have split (d : List Char) :
      lead ++ '[' :: (separated (ds₁ ++ d :: ds₂) ++ (gap ++ ']' :: trail)) =
        (lead ++ '[' :: separated (ds₁ ++ [[]])) ++
          (d ++ (following ds₂ ++ (gap ++ ']' :: trail))) := by
    rw [separated_split]
    simp
  refine ⟨_, d, _, text.trans (split d), item, fun x b again => ?_⟩
  rw [← split]
  exact Reader.whole_eq_ok.mpr ⟨trail, trail_blank,
    list_accepts (others x b again) blank gap_blank trail⟩

end

/-! ### Fields of a record -/

/-- The place of a type in a list of types. -/
inductive Position : Type → List Type → Type 1
  | here {α : Type} {αs : List Type} : Position α (α :: αs)
  | there {α β : Type} {αs : List Type} (p : Position α αs) : Position α (β :: αs)

-- A position is written as its number, counted from zero.
instance {α : Type} {αs : List Type} : OfNat (Position α (α :: αs)) 0 := ⟨.here⟩

instance {α β : Type} {αs : List Type} {n : Nat} [OfNat (Position α αs) n] :
    OfNat (Position α (β :: αs)) (n + 1) :=
  ⟨.there (OfNat.ofNat n)⟩

def Fields.at : {αs : List Type} → Fields αs → Position α αs → Field α
  | _ :: _, (f, _), .here => f
  | _ :: _, (_, fs), .there p => Fields.at fs p

namespace Values

def get : {αs : List Type} → Values αs → Position α αs → α
  | _ :: _, (v, _), .here => v
  | _ :: _, (_, vs), .there p => get vs p

def set : {αs : List Type} → Values αs → Position α αs → α → Values αs
  | _ :: _, (_, vs), .here, w => (w, vs)
  | _ :: _, (v, vs), .there p, w => (v, set vs p w)

end Values

section
variable {αs : List Type} {fs : Fields αs}

theorem Fields.key_at_mem (p : Position α αs) : (fs.at p).key ∈ fs.keys := by
  induction p with
  | here =>
    obtain ⟨f, fs⟩ := fs
    exact List.mem_cons_self
  | there p ih =>
    obtain ⟨f, fs⟩ := fs
    exact List.mem_cons_of_mem _ ih

theorem Fields.find?_at (nodup : fs.keys.Nodup) (p : Position α αs) :
    fs.find? (fs.at p).key = some ⟨α, fs.at p⟩ := by
  induction p with
  | here =>
    obtain ⟨f, fs⟩ := fs
    exact if_pos rfl
  | there p ih =>
    obtain ⟨f, fs⟩ := fs
    obtain ⟨unique, nodup⟩ := List.nodup_cons.mp nodup
    have other : f.key ≠ (Fields.at fs p).key := by
      intro same
      exact unique (same ▸ key_at_mem p)
    exact (if_neg other).trans (ih nodup)

end

/-! #### In an object -/

namespace Fields

variable {αs : List Type} {fs : Fields αs} {ms : List Member}

theorem holds_of_complete {vs : Values αs} (complete : fs.complete (fs.filled ms) = .ok vs) :
    fs.Holds ms vs := by
  induction αs with
  | nil => trivial
  | cons α αs ih =>
    obtain ⟨f, fs⟩ := fs
    rw [filled, Fields.complete] at complete
    split at complete
    · cases complete
    · rename_i v value
      split at complete
      · cases complete
      · rename_i others
        cases complete
        exact ⟨value, ih others⟩

theorem Holds.at {vs : Values αs} (holds : fs.Holds ms vs) (p : Position α αs) :
    ((fs.at p).given ms).or (fs.at p).absent = some (vs.get p) := by
  induction p with
  | here =>
    obtain ⟨f, fs⟩ := fs
    obtain ⟨v, vs⟩ := vs
    exact holds.1
  | there p ih =>
    obtain ⟨f, fs⟩ := fs
    obtain ⟨v, vs⟩ := vs
    exact ih holds.2

end Fields

/-- The member that gives a field its value. -/
theorem Field.given_split {f : Field α} {ms : List Member} {v : α} (given : f.given ms = some v) :
    ∃ earlier m later, ms = earlier ++ m :: later ∧ (∀ d ∈ earlier, d.key ≠ f.key) ∧
      m.key = f.key ∧ f.reader.whole m.value = .ok v := by
  unfold Field.given at given
  cases found : ms.find? fun m => m.key = f.key with
  | none =>
    rw [found] at given
    cases given
  | some m =>
    rw [found] at given
    obtain ⟨same, earlier, later, rfl, others⟩ := List.find?_eq_some_iff_append.mp found
    refine ⟨earlier, m, later, rfl, fun d mem => by simpa using others d mem, by simpa using same, ?_⟩
    change (f.reader.whole m.value).toOption = some v at given
    cases value : f.reader.whole m.value with
    | error e =>
      rw [value] at given
      cases given
    | ok w =>
      rw [value] at given
      obtain rfl := Option.some.inj given
      rfl

theorem Field.given_replace {f : Field α} {m m' : Member} (same : m'.key = m.key)
    (other : m.key ≠ f.key) (earlier later : List Member) :
    f.given (earlier ++ m' :: later) = f.given (earlier ++ m :: later) := by
  have skip : (m' :: later).find? (fun m => m.key = f.key) =
      (m :: later).find? (fun m => m.key = f.key) := by
    rw [List.find?_cons_of_neg (by simpa [same] using other),
      List.find?_cons_of_neg (by simpa using other)]
  rw [given, given, List.find?_append, List.find?_append, skip]

/-- Another value of a member is another value of its field. -/
theorem Fields.Holds.set {αs : List Type} {fs : Fields αs} (nodup : fs.keys.Nodup)
    (p : Position α αs) {earlier later : List Member} {m m' : Member} {vs : Values αs}
    (holds : fs.Holds (earlier ++ m :: later) vs)
    (fresh : ∀ d ∈ earlier, d.key ≠ (fs.at p).key) (key : m.key = (fs.at p).key)
    (same : m'.key = m.key) {b : α} (reads : (fs.at p).reader.whole m'.value = .ok b) :
    fs.Holds (earlier ++ m' :: later) (vs.set p b) := by
  have unchanged {βs : List Type} {gs : Fields βs} {ws : Values βs}
      (holds : gs.Holds (earlier ++ m :: later) ws) (unknown : m.key ∉ gs.keys) :
      gs.Holds (earlier ++ m' :: later) ws := by
    induction βs with
    | nil => trivial
    | cons β βs ih =>
      obtain ⟨g, gs⟩ := gs
      obtain ⟨w, ws⟩ := ws
      obtain ⟨other, unknown⟩ := not_or.mp (List.mem_cons.not.mp unknown)
      exact ⟨by rw [Field.given_replace same other]; exact holds.1, ih holds.2 unknown⟩
  induction p with
  | here =>
    obtain ⟨f, fs⟩ := fs
    obtain ⟨v, vs⟩ := vs
    obtain ⟨unique, -⟩ := List.nodup_cons.mp nodup
    have given := Field.given_append_cons fresh (same.trans key) reads later
    exact ⟨congrArg (Option.or · f.absent) given, unchanged holds.2 (key ▸ unique)⟩
  | there p ih =>
    obtain ⟨f, fs⟩ := fs
    obtain ⟨v, vs⟩ := vs
    obtain ⟨unique, nodup⟩ := List.nodup_cons.mp nodup
    have other : m.key ≠ f.key := by
      intro eq
      exact unique (by rw [← eq, key]; exact Fields.key_at_mem p)
    exact ⟨by rw [Field.given_replace same other]; exact holds.1, ih nodup holds.2 fresh key reads⟩

namespace ObjectText

/-- The object with another value for one of its members. -/
def withValue (o : ObjectText) (earlier : List Member) (m : Member) (later : List Member)
    (x : List Char) : ObjectText :=
  { o with members := earlier ++ { m with value := x } :: later }

/-- The text of the object as far as the value of a member. -/
def before (o : ObjectText) (earlier : List Member) (m : Member) : List Char :=
  o.lead ++ '\x7b' :: (separated ((earlier.map fun m => m.chars) ++ [[]]) ++
    ({ m with value := [] } : MemberText).chars)

/-- The text of the object behind the value of a member. -/
def behind (o : ObjectText) (later : List Member) : List Char :=
  following (later.map fun m => m.chars) ++ (o.inner ++ '\x7d' :: o.trail)

theorem delimits_behind (o : ObjectText) (later : List Member) : Delimits (o.behind later) :=
  .following _ (.blank_append o.inner_blank (.cons rfl o.trail))

variable (o : ObjectText) (earlier later : List Member) (m : Member) (x : List Char)

theorem chars_withValue :
    (o.withValue earlier m later x).chars = o.before earlier m ++ (x ++ o.behind later) := by
  have member : ({ m with value := x } : MemberText).chars =
      ({ m with value := [] } : MemberText).chars ++ x :=
    MemberText.chars_append { m with value := [] } x
  have members : (o.withValue earlier m later x).members.map (fun m => m.chars) =
      (earlier.map fun m => m.chars) ++ ({ m with value := x } : MemberText).chars ::
        (later.map fun m => m.chars) := by
    rw [withValue, List.map_append, List.map_cons]
  rw [chars, members, separated_split, member]
  simp [withValue, before, behind]

end ObjectText

namespace Record

section
variable {αs : List Type} {r : Record S αs} (persistent : r.fields.Persistent)
  (nodup : r.fields.keys.Nodup) {o : ObjectText} (fits : o.Fits r.fields) (p : Position α αs)
  {earlier later : List Member} {m : Member} (members : o.members = earlier ++ m :: later)
  (key : m.key = (r.fields.at p).key)
include nodup fits members key

theorem fits_withValue {x : List Char} {b : α} (reads : (r.fields.at p).reader.whole x = .ok b) :
    (o.withValue earlier m later x).Fits r.fields where
  once := by
    have keys : (o.withValue earlier m later x).members.map Member.key = o.members.map Member.key := by
      rw [members]
      simp [ObjectText.withValue]
    intro key mem
    rw [keys]
    exact fits.once key mem
  members d mem := by
    have others := fits.members
    rw [members] at others
    obtain mem | mem := List.mem_append.mp mem
    · exact others d (List.mem_append_left _ mem)
    · obtain rfl | mem := List.mem_cons.mp mem
      · exact Member.Fits.of_find? nodup _ (Fields.find?_at nodup p) key reads
      · exact others d (List.mem_append_right _ (List.mem_cons_of_mem _ mem))

include persistent

/-- Another value of a member is another value of its field. -/
theorem whole_withValue {vs : Values αs} (holds : r.fields.Holds o.members vs) {x : List Char} {b : α}
    (reads : (r.fields.at p).reader.whole x = .ok b) :
    r.reader.whole (o.withValue earlier m later x).chars = .ok (Values.apply r.build (vs.set p b)) := by
  have fits' := fits_withValue nodup fits p members key reads
  have fresh : ∀ d ∈ earlier, d.key ≠ m.key :=
    Once.fresh (members ▸ fits.once) (key ▸ Fields.key_at_mem p)
  have same : ({ m with value := x } : Member).key = m.key := rfl
  have holds' : r.fields.Holds (o.withValue earlier m later x).members (vs.set p b) :=
    (members ▸ holds).set nodup p (key ▸ fresh) key same reads
  rw [whole_object persistent nodup fits'.members fits'.once, Fields.complete_of_holds holds']
  rfl

end

section
variable {αs : List Type} {r : Record S αs} (nodup : r.fields.keys.Nodup) (exact : r.fields.Exact)
include nodup exact

theorem stands_in_object {o : ObjectText} {vs : Values αs} (spelled : Spelled r.fields o vs)
    (p : Position α αs) (notDefault : (r.fields.at p).absent ≠ some (vs.get p)) :
    ∃ pre x post, Stands r.reader (r.fields.at p).reader (fun b => Values.apply r.build (vs.set p b))
      o.chars (vs.get p) pre x post := by
  have holds := Fields.holds_of_complete spelled.complete
  have value := holds.at p
  cases given : (r.fields.at p).given o.members with
  | none =>
    rw [given, Option.none_or] at value
    exact absurd value notDefault
  | some v =>
    rw [given, Option.some_or] at value
    obtain ⟨earlier, m, later, members, -, key, reads⟩ := Field.given_split given
    rw [Option.some.inj value] at reads
    refine ⟨o.before earlier m, m.value, o.behind later, ?_, reads, fun x b again => ?_⟩
    · rw [← ObjectText.chars_withValue]
      exact congrArg (fun ms => ({ o with members := ms } : ObjectText).chars) members
    · rw [← ObjectText.chars_withValue]
      exact whole_withValue exact.persistent nodup spelled.fits p members key holds again

end

end Record

/-! #### In an array -/

/-- The number of a place. -/
def Position.index : {αs : List Type} → Position α αs → Nat
  | _ :: _, .here => 0
  | _ :: _, .there p => index p + 1

namespace Fields.Listed

variable {αs : List Type} {fs : Fields αs}

theorem split (items : fs.Items) {ds : List (List Char)} {vs : Values αs} (listed : fs.Listed ds vs)
    (p : Position α αs) (notDefault : (fs.at p).absent ≠ some (vs.get p)) :
    ∃ ds₁ d ds₂, ds = ds₁ ++ d :: ds₂ ∧ ds₁.length = p.index ∧
      (fs.at p).reader.whole d = .ok (vs.get p) := by
  induction p generalizing ds with
  | here =>
    obtain ⟨f, fs⟩ := fs
    obtain ⟨v, vs⟩ := vs
    cases ds with
    | nil => exact absurd (items.1.default listed.1) notDefault
    | cons d ds => exact ⟨[], d, ds, rfl, rfl, listed.1⟩
  | there p ih =>
    obtain ⟨f, fs⟩ := fs
    obtain ⟨v, vs⟩ := vs
    cases ds with
    | nil =>
      obtain ⟨ds₁, d, ds₂, none, -⟩ := ih items.2 listed.2 notDefault
      simp at none
    | cons d ds =>
      obtain ⟨ds₁, d', ds₂, rfl, place, reads⟩ := ih items.2 listed.2 notDefault
      exact ⟨d :: ds₁, d', ds₂, rfl, congrArg (· + 1) place, reads⟩

/-- Another text in the place of a field is another value of the field. -/
theorem set {ds₁ ds₂ : List (List Char)} {d : List Char} {vs : Values αs}
    (listed : fs.Listed (ds₁ ++ d :: ds₂) vs) (p : Position α αs) (place : ds₁.length = p.index)
    {x : List Char} {b : α} (reads : (fs.at p).reader.whole x = .ok b) :
    fs.Listed (ds₁ ++ x :: ds₂) (vs.set p b) := by
  induction p generalizing ds₁ with
  | here =>
    obtain ⟨f, fs⟩ := fs
    obtain ⟨v, vs⟩ := vs
    obtain rfl := List.length_eq_zero_iff.mp place
    exact ⟨reads, listed.2⟩
  | there p ih =>
    obtain ⟨f, fs⟩ := fs
    obtain ⟨v, vs⟩ := vs
    cases ds₁ with
    | nil => cases place
    | cons d' ds₁ => exact ⟨listed.1, ih listed.2 (Nat.succ.inj place) reads⟩

end Fields.Listed

namespace ArrayText

variable (a : ArrayText) (earlier later : List String) (x : List Char)

/-- The array with another text for one of its items. -/
def withItem : ArrayText := { a with items := earlier ++ String.ofList x :: later }

/-- The text of the array as far as an item. -/
def before : List Char := a.lead ++ '[' :: separated (earlier.map String.toList ++ [[]])

/-- The text of the array behind an item. -/
def behind : List Char := following (later.map String.toList) ++ (a.gap ++ ']' :: a.trail)

theorem items_withItem : (a.withItem earlier later x).items.map String.toList =
    earlier.map String.toList ++ x :: later.map String.toList := by
  simp [withItem]

theorem chars_withItem :
    (a.withItem earlier later x).chars = a.before earlier ++ (x ++ a.behind later) := by
  rw [chars, items_withItem, separated_split]
  simp [withItem, before, behind]

end ArrayText

namespace Record

section
variable {αs : List Type} {r : Record S αs}

theorem whole_withItem (items : r.fields.Items) {a : ArrayText} {vs : Values αs}
    (listed : r.fields.Listed (a.items.map String.toList) vs) (p : Position α αs)
    {earlier later : List String} {d : String} (split : a.items = earlier ++ d :: later)
    (place : earlier.length = p.index) {x : List Char} {b : α}
    (reads : (r.fields.at p).reader.whole x = .ok b) :
    r.reader.whole (a.withItem earlier later x).chars = .ok (Values.apply r.build (vs.set p b)) := by
  refine Lawful.whole_array_of_listed items _ ?_
  rw [split, List.map_append, List.map_cons] at listed
  rw [ArrayText.items_withItem]
  exact listed.set p (by rw [List.length_map, place]) reads

variable (nodup : r.fields.keys.Nodup) (exact : r.fields.Exact)
include exact

theorem stands_in_array {a : ArrayText} {vs : Values αs} (ranged : Ranged r.fields a vs)
    (p : Position α αs) (notDefault : (r.fields.at p).absent ≠ some (vs.get p)) :
    ∃ pre x post, Stands r.reader (r.fields.at p).reader (fun b => Values.apply r.build (vs.set p b))
      a.chars (vs.get p) pre x post := by
  obtain ⟨ds₁, d, ds₂, items, place, reads⟩ := ranged.listed.split exact.items p notDefault
  obtain ⟨earlier, others, split, rfl, behind⟩ := List.map_eq_append_iff.mp items
  obtain ⟨d, later, rfl, rfl, rfl⟩ := List.map_eq_cons_iff.mp behind
  rw [List.length_map] at place
  refine ⟨a.before earlier, d.toList, a.behind later, ?_, reads, fun x b again => ?_⟩
  · rw [← ArrayText.chars_withItem, ArrayText.withItem, String.ofList_toList, ← split]
  · rw [← ArrayText.chars_withItem]
    exact whole_withItem exact.items ranged.listed p split place again

include nodup

/-- Every field of a record that does not hold its default stands in the text, whichever form the
record has. -/
theorem stands_in_record {s : List Char} {v : S} (reads : r.reader.whole s = .ok v) :
    ∃ vs, v = Values.apply r.build vs ∧
      ∀ {α : Type} (p : Position α αs), (r.fields.at p).absent ≠ some (vs.get p) →
        ∃ pre x post, Stands r.reader (r.fields.at p).reader
          (fun b => Values.apply r.build (vs.set p b)) s (vs.get p) pre x post := by
  obtain ⟨vs, same, ⟨o, rfl, spelled⟩ | ⟨a, rfl, ranged⟩⟩ := whole_form nodup exact reads
  · exact ⟨vs, same, fun p notDefault => stands_in_object nodup exact spelled p notDefault⟩
  · exact ⟨vs, same, fun p notDefault => stands_in_array exact ranged p notDefault⟩

end

end Record

end Spindle.Json
