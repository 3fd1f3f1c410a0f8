import Spindle.Proofs.Json.ByKey
import Spindle.Proofs.Json.ListItems

/-!
# Lists under a key

A list under a key of an object is read item by item, wherever the object puts it and whatever its
other members are. Once an item has a fault, what follows that item does not matter.
-/

namespace Spindle.Json

/-- Faults that say where a text ends. -/
def Error.AboutEnd (e : Error) : Prop :=
  "EOF while parsing ".toList <+: e.message.toList ∨ e.message = "trailing characters"

instance (e : Error) : Decidable e.AboutEnd := inferInstanceAs (Decidable (_ ∨ _))

theorem Error.closed_of_not_aboutEnd {e : Error} (notEnd : ¬ e.AboutEnd) : e.isOpen = false := by
  cases e with
  | endOfValue | endOfString | endOfList | endOfObject =>
    exact absurd (.inl (by decide)) notEnd
  | trailingCharacters => exact absurd (.inr rfl) notEnd
  | _ => rfl

/-- Of some texts read one after the other, `d` is the first with a fault. -/
structure FirstFault (α : Type) [Wire α] (ds : List String) (d : String) (e : Error) : Prop where
  earlier : ∀ d' ∈ ds, ∃ v, ofText α d' = .ok v
  fault : ofText α d = .error e
  notEnd : ¬ e.AboutEnd
  notClose : ¬ ClosesList d.toList

/-! ### Where a list stands -/

/-- An object around a list. The value of `opening` goes as far as the bracket of the list; `gap`
stands in front of the closing bracket, and `after` behind it. -/
structure ListSite where
  lead : List Char
  earlier : List Member
  opening : Member
  gap : List Char
  after : List Char
  later : List Member
  inner : List Char
  trail : List Char
  lead_blank : Blank lead
  opening_blank : Blank opening.value
  gap_blank : Blank gap
  after_blank : Blank after
  inner_blank : Blank inner
  trail_blank : Blank trail

namespace ListSite

variable (site : ListSite)

/-- The member of the list as far as the end of its last item. -/
def begun (ds : List (List Char)) : Member :=
  { site.opening with value := site.opening.value ++ '[' :: separated ds }

def closing : List Char := site.gap ++ ']' :: site.after

def member (ds : List (List Char)) : Member :=
  { site.opening with value := (site.begun ds).value ++ site.closing }

def object (ds : List (List Char)) : ObjectText where
  lead := site.lead
  members := site.earlier ++ site.member ds :: site.later
  inner := site.inner
  trail := site.trail
  lead_blank := site.lead_blank
  inner_blank := site.inner_blank
  trail_blank := site.trail_blank

def text (ds : List String) : String := (site.object (ds.map String.toList)).text

def charsTo (ds : List (List Char)) : List Char :=
  site.lead ++ '\x7b' :: separated ((site.earlier ++ [site.begun ds]).map fun m => m.chars)

def behind : List Char :=
  site.closing ++
    (following (site.later.map fun m => m.chars) ++ (site.inner ++ '\x7d' :: site.trail))

/-- The text as far as the end of the last item. -/
def textTo (ds : List String) : String := String.ofList (site.charsTo (ds.map String.toList))

/-- A list between other members, without blanks. -/
def compact (earlier : List (String × Value)) (key : String) (later : List (String × Value)) :
    ListSite where
  lead := []
  earlier := earlier.map (Member.written Spacing.compact_blank 0)
  opening := { Member.written Spacing.compact_blank 0 (key, .null) with value := [] }
  gap := []
  after := []
  later := later.map (Member.written Spacing.compact_blank 0)
  inner := []
  trail := []
  lead_blank := .nil
  opening_blank := .nil
  gap_blank := .nil
  after_blank := .nil
  inner_blank := .nil
  trail_blank := .nil

/-- The object is in order if the list is taken to be empty, and the list has the given key. -/
structure Valid {αs : List Type} (fs : Fields αs) (key : String) : Prop where
  key : site.opening.key = key
  fits : (site.object []).Fits fs
  present : ∀ key ∈ fs.required, key ∈ (site.object []).keys

end ListSite

/-- The list under `key` is read item by item: `read` gives a whole with the values of the items
for its `part`, or the fault of the first item that has one. -/
structure ReadsItems {αs : List Type} (α : Type) [Wire α] (fs : Fields αs) (key : String)
    (part : S → List α) (read : String → Except ε S) (fault : Error → ε) : Prop where
  accepts : ∀ site : ListSite, site.Valid fs key → ∀ ds vs,
    List.Forall₂ (fun d v => ofText α d = .ok v) ds vs →
      ∃ s, read (site.text ds) = .ok s ∧ part s = vs
  rejects : ∀ site : ListSite, site.Valid fs key → ∀ ds d e, FirstFault α ds d e →
    ∀ others, read (site.text (ds ++ d :: others)) = .error (fault e)
  /-- The text may break off or go on in any way that does not continue a number. -/
  unread : ∀ site : ListSite, site.Valid fs key → ∀ ds d e, FirstFault α ds d e →
    ∀ rest : String, Delimits rest.toList →
      read (site.textTo (ds ++ [d]) ++ rest) = .error (fault e)

/-! ### The text around a list -/

theorem separated_append_cons (ts us : List (List Char)) (t : List Char) :
    separated (ts ++ t :: us) = separated (ts ++ [t]) ++ following us := by
  cases ts <;> simp [separated, following]

theorem separated_concat_append (ts : List (List Char)) (t s : List Char) :
    separated (ts ++ [t ++ s]) = separated (ts ++ [t]) ++ s := by
  cases ts <;> simp [separated, following]

theorem MemberText.chars_append (m : MemberText) (s : List Char) :
    chars { m with value := m.value ++ s } = m.chars ++ s := by
  simp [chars]

namespace ListSite

variable {site : ListSite}

theorem chars_object (ds : List (List Char)) :
    (site.object ds).chars = site.charsTo ds ++ site.behind := by
  have member : (site.member ds).chars = (site.begun ds).chars ++ site.closing :=
    MemberText.chars_append (site.begun ds).toMemberText site.closing
  simp only [object, ObjectText.chars, charsTo, behind, List.map_append, List.map_cons,
    List.map_nil, member, separated_append_cons _ (site.later.map fun m => m.chars),
    separated_concat_append]
  simp only [List.append_assoc, List.cons_append]

theorem charsTo_append_cons (ds others : List (List Char)) (d : List Char) :
    site.charsTo (ds ++ d :: others) = site.charsTo (ds ++ [d]) ++ following others := by
  have member : (site.begun (ds ++ d :: others)).chars =
      (site.begun (ds ++ [d])).chars ++ following others := by
    simp [begun, MemberText.chars, separated_append_cons ds others]
  simp only [charsTo, List.map_append, List.map_cons, List.map_nil, member, separated_concat_append]
  simp only [List.append_assoc, List.cons_append]

theorem delimits_behind (site : ListSite) : Delimits site.behind := by
  rw [behind, closing, List.append_assoc]
  exact .blank_append site.gap_blank (.cons rfl _)

theorem keys_object (ds : List (List Char)) :
    (site.object ds).keys =
      site.earlier.map Member.key ++ site.opening.key :: site.later.map Member.key := by
  rw [ObjectText.keys, object, List.map_append, List.map_cons]
  rfl

theorem whole_member [Wire α] [ListItem α] {ds : List (List Char)} {vs : List α}
    (reads : EachReads ds vs) :
    (Wire.reader : Reader (List α)).whole (site.member ds).value = .ok vs := by
  refine Reader.whole_eq_ok.mpr ⟨site.after, site.after_blank, ?_⟩
  show Wire.reader.run ((site.opening.value ++ '[' :: separated ds) ++
    (site.gap ++ ']' :: site.after)) = _
  rw [List.append_assoc]
  exact list_accepts reads site.opening_blank site.gap_blank site.after

end ListSite

/-! ### The field of a key -/

namespace Fields

/-- The field of a key with its type. -/
def find? : {αs : List Type} → Fields αs → String → Option ((α : Type) × Field α)
  | [], (), _ => none
  | α :: _, (f, fs), key => if f.key = key then some ⟨α, f⟩ else find? fs key

variable {αs : List Type} {fs : Fields αs} {key : String}

theorem mem_keys_of_find? {f : Field α} (found : fs.find? key = some ⟨α, f⟩) : key ∈ fs.keys := by
  induction αs with
  | nil => cases found
  | cons β αs ih =>
    obtain ⟨g, fs⟩ := fs
    rw [find?] at found
    split at found
    · exact List.mem_cons.mpr (.inl (Eq.symm ‹_›))
    · exact List.mem_cons_of_mem _ (ih found)

theorem all_of_find? (nodup : fs.keys.Nodup) {f : Field α} (found : fs.find? key = some ⟨α, f⟩)
    {P : (α : Type) → Field α → Prop} (holds : P α f) :
    fs.All fun α f => key = f.key → P α f := by
  induction αs with
  | nil => cases found
  | cons β αs ih =>
    obtain ⟨g, fs⟩ := fs
    obtain ⟨unique, nodup⟩ := List.nodup_cons.mp nodup
    rw [find?] at found
    split at found
    · rename_i same
      cases found
      exact ⟨fun _ => holds, all_of_notMem (same ▸ unique)⟩
    · rename_i other
      exact ⟨fun same => absurd same.symm other, ih nodup found⟩

/-- The reader of a key that is new passes on the faults of its field. -/
theorem place_of_find? {ms : List Member} (fresh : ∀ d ∈ ms, d.key ≠ key) {f : Field α}
    (found : fs.find? key = some ⟨α, f⟩) :
    ∃ r, fs.place (fs.filled ms) key = .free r ∧
      ∀ s e, f.reader.run s = .error e → r.run s = .error e := by
  induction αs with
  | nil => cases found
  | cons β αs ih =>
    obtain ⟨g, fs⟩ := fs
    rw [find?] at found
    split at found
    · rename_i same
      cases found
      refine ⟨f.reader.map fun v => (some v, filled fs ms), ?_, ?_⟩
      · rw [filled, Field.given_eq_none (same ▸ fresh)]
        exact place_of_key same
      · intro s e fails
        simp only [Reader.map, fails]
    · rename_i other
      obtain ⟨r, free, strict⟩ := ih found
      refine ⟨r.map fun slots => (g.given ms, slots), ?_, ?_⟩
      · refine (place_of_other other).trans ?_
        rw [free]
        rfl
      · intro s e fails
        simp only [Reader.map, strict s e fails]

end Fields

namespace Member.Fits

variable {αs : List Type} {fs : Fields αs} (nodup : fs.keys.Nodup) (key : String) {f : Field α}
  (found : fs.find? key = some ⟨α, f⟩)
include nodup found

theorem of_find? {m : Member} (same : m.key = key) {v : α}
    (reads : f.reader.whole m.value = .ok v) : m.Fits fs := by
  subst same
  exact ⟨Fields.all_of_find? nodup found ⟨v, reads⟩,
    fun unknown => absurd (Fields.mem_keys_of_find? found) unknown⟩

theorem written [Wire α] [LawfulWire α] (reader : f.reader = Wire.reader) (v : α) :
    (Member.written Spacing.compact_blank 0 (key, Wire.write v)).Fits fs :=
  of_find? nodup key found rfl (reader ▸ LawfulWire.reads_after Spacing.compact_blank 1 v)

end Member.Fits

/-! ### An object with a fault in a member -/

namespace Record

section
variable {αs : List Type} {fs : Fields αs} {m : Member} {f : Field α}
  (found : fs.find? m.key = some ⟨α, f⟩) {rest : List Char} {e : Error}
  (fails : f.reader.run (m.value ++ rest) = .error e)
include found fails

theorem stepObject_rejects {ms : List Member} (fresh : ∀ d ∈ ms, d.key ≠ m.key) {first : Bool}
    {b : List Char} (blank : Blank b) :
    stepObject fs (first, fs.filled ms) (b ++ (due first m.chars ++ rest)) = .error e := by
  obtain ⟨r, free, strict⟩ := Fields.place_of_find? fresh found
  rw [stepObject, nextMember_due blank m.before_blank]
  simp only [Member.reads_key, String.ofList_toList, free]
  rw [readMember, Document.readColon_append m.after_blank]
  dsimp only
  rw [strict _ e fails]

variable (persistent : fs.Persistent) (nodup : fs.keys.Nodup)
include persistent nodup

/-- The members in front of the fault fill their fields; the fault ends the run. -/
theorem object_rejects {ms : List Member} (fits : ∀ d ∈ ms, d.Fits fs)
    (once : Once fs.keys (ms ++ [m])) :
    (object fs).run (true, .empty αs)
      (separated ((ms ++ [m]).map fun m => m.chars) ++ rest) = .error e := by
  have before : Once fs.keys ms := fun key known => by
    have counted := once key known
    rw [List.map_append, List.count_append] at counted
    omega
  obtain ⟨b, blank, run⟩ := run_separated persistent nodup fits before
  have delimits (first : Bool) : Delimits (due first m.chars ++ rest) := by
    cases first with
    | true =>
      rw [due, if_pos rfl, MemberText.chars, List.append_assoc]
      exact .blank_append m.before_blank (.cons rfl _)
    | false => exact .cons rfl _
  have fresh := Once.fresh once (Fields.mem_keys_of_find? found)
  rw [← joined_true, List.map_append, List.map_singleton, joined_append, joined_singleton,
    joined_true, List.append_assoc, run _ (delimits _), List.isEmpty_map, Bool.true_and]
  exact Loop.run_error (stepObject_rejects found fails fresh blank)

end

theorem whole_rejects {αs : List Type} {r : Record S αs} (lawful : r.Lawful) {ms : List Member}
    {m : Member} {f : Field α} (found : r.fields.find? m.key = some ⟨α, f⟩) {rest : List Char}
    {e : Error} (fails : f.reader.run (m.value ++ rest) = .error e)
    (fits : ∀ d ∈ ms, d.Fits r.fields) (once : Once r.fields.keys (ms ++ [m])) {lead : List Char}
    (blank : Blank lead) :
    r.reader.whole
      (lead ++ '\x7b' :: (separated ((ms ++ [m]).map fun m => m.chars) ++ rest)) = .error e := by
  have run := object_rejects found fails lawful.persistent lawful.nodup fits once
  have values : (Reader.afterBlanks r.readValues readValues_le).run
      (lead ++ '\x7b' :: (separated ((ms ++ [m]).map fun m => m.chars) ++ rest)) = .error e :=
    (Reader.afterBlanks_run (skipBlank_blank_cons blank (c := '\x7b') rfl _)).trans run
  rw [reader, Reader.whole_map, Reader.whole, values]
  rfl

end Record

/-! ### A record with a list -/

namespace ListSite.Valid

variable {αs : List Type} {fs : Fields αs} {key : String} {site : ListSite}
  (valid : site.Valid fs key)
include valid

theorem earlier_fits : ∀ m ∈ site.earlier, m.Fits fs :=
  fun m mem => valid.fits.members m (List.mem_append_left _ mem)

theorem once_begun (ds : List (List Char)) : Once fs.keys (site.earlier ++ [site.begun ds]) := by
  intro key mem
  have bound := valid.fits.once key mem
  rw [← ObjectText.keys, keys_object] at bound
  rw [List.map_append]
  refine Nat.le_trans (List.Sublist.count_le key ?_) bound
  exact (List.singleton_sublist.mpr List.mem_cons_self).append_left _

variable [Wire α] [ListItem α] (found : fs.find? key = some ⟨List α, .defaulted key []⟩)
  {ds : List (List Char)} {vs : List α} (reads : EachReads ds vs)
include found reads

theorem object_fits (nodup : fs.keys.Nodup) : (site.object ds).Fits fs where
  once := by
    have once := valid.fits.once
    rw [Once, ← ObjectText.keys, keys_object] at once ⊢
    exact once
  members m mem := by
    obtain before | rfl | behind :
        m ∈ site.earlier ∨ m = site.member ds ∨ m ∈ site.later := by
      simpa [object] using mem
    · exact valid.earlier_fits m before
    · exact .of_find? nodup key found valid.key (whole_member reads)
    · exact valid.fits.members m (List.mem_append_right _ (List.mem_cons_of_mem _ behind))

theorem object_given : (site.object ds).given key = some vs := by
  have known : (site.begun ds).key ∈ fs.keys := valid.key ▸ Fields.mem_keys_of_find? found
  have fresh : ∀ m ∈ site.earlier, m.key ≠ (site.begun ds).key :=
    Once.fresh (valid.once_begun ds) known
  exact Field.given_append_cons (m := site.member ds) (f := .required key)
    (fun m mem => valid.key ▸ fresh m mem) valid.key (whole_member reads) site.later

end ListSite.Valid

namespace Record.Lawful

variable {αs : List Type} {r : Record S αs} (lawful : r.Lawful) [Wire α] [ListItem α] {key : String}
  (found : r.fields.find? key = some ⟨List α, .defaulted key []⟩)
include lawful found

theorem whole_list_rejects {site : ListSite} (valid : site.Valid r.fields key) {ds : List String}
    {d : String} {e : Error} (first : FirstFault α ds d e) {rest : List Char}
    (delimits : Delimits rest) :
    r.reader.whole (site.charsTo ((ds ++ [d]).map String.toList) ++ rest) = .error e := by
  have earlier : ∀ d' ∈ ds.map String.toList, ∃ v, (Wire.reader : Reader α).whole d' = .ok v := by
    intro d' mem
    obtain ⟨text, found, rfl⟩ := List.mem_map.mp mem
    exact first.earlier text found
  rw [List.map_append, List.map_singleton, ListSite.charsTo, List.append_assoc]
  have list : (Wire.reader : Reader (List α)).run
      ((site.begun (ds.map String.toList ++ [d.toList])).value ++ rest) = .error e := by
    rw [ListSite.begun, List.append_assoc]
    exact list_rejects earlier first.fault (e.closed_of_not_aboutEnd first.notEnd) first.notClose
      site.opening_blank delimits
  exact whole_rejects lawful (m := site.begun _)
    ((congrArg r.fields.find? valid.key).trans found) list valid.earlier_fits
    (valid.once_begun _) site.lead_blank

/-- The list of a record is read item by item if the record is read by its keys. -/
theorem readsItems {GivenBy : ObjectText → S → Prop}
    (byKey : @ReadsByKey S r.wire αs r.fields r.fields.required GivenBy) {part : S → List α}
    (given : ∀ o s, GivenBy o s → part s = (o.given key).getD []) :
    ReadsItems α r.fields key part (@ofText S r.wire) id := by
  let := r.wire
  constructor
  · intro site valid ds vs reads
    have each : EachReads (ds.map String.toList) vs := List.forall₂_map_left_iff.mpr reads
    have fits := valid.object_fits found each lawful.nodup
    have present : ∀ key ∈ r.fields.required,
        key ∈ (site.object (ds.map String.toList)).keys := by
      rw [ListSite.keys_object, ← ListSite.keys_object []]
      exact valid.present
    obtain ⟨s, read⟩ := (byKey.succeeds _ fits).mpr present
    refine ⟨s, read, ?_⟩
    rw [given _ s (byKey.given _ fits s read), valid.object_given found each]
    rfl
  · intro site valid ds d e first others
    have text : (site.text (ds ++ d :: others)).toList =
        site.charsTo ((ds ++ [d]).map String.toList) ++
          (following (others.map String.toList) ++ site.behind) := by
      rw [ListSite.text, ObjectText.text, String.toList_ofList, ListSite.chars_object,
        List.map_append, List.map_cons, ListSite.charsTo_append_cons, List.append_assoc,
        List.map_append, List.map_singleton]
    rw [ofText, text]
    exact lawful.whole_list_rejects found valid first (.following _ site.delimits_behind)
  · intro site valid ds d e first rest delimits
    rw [ofText, String.toList_append, ListSite.textTo, String.toList_ofList]
    exact lawful.whole_list_rejects found valid first delimits

end Record.Lawful

/-! ### Lists in lists -/

theorem ListSite.text_not_close (site : ListSite) (ds : List String) :
    ¬ ClosesList (site.text ds).toList := by
  rw [ListSite.text, ObjectText.text, String.toList_ofList, ClosesList, ObjectText.chars,
    skipBlank_blank_cons (site.object _).lead_blank (c := '\x7b') rfl]
  intro closes
  cases Option.some.inj closes

/-- A fault in the list of an item is the fault of the item. -/
theorem FirstFault.nested {αs : List Type} {fs : Fields αs} {key : String} [Wire S] [Wire α]
    {part : S → List α} (items : ReadsItems α fs key part (ofText S) id) {site : ListSite}
    (valid : site.Valid fs key) {ps : List String} {p : String} {e : Error}
    (first : FirstFault α ps p e) (others : List String) {ds : List String}
    (earlier : ∀ d ∈ ds, ∃ v, ofText S d = .ok v) :
    FirstFault S ds (site.text (ps ++ p :: others)) e where
  earlier := earlier
  fault := items.rejects site valid ps p e first others
  notEnd := first.notEnd
  notClose := site.text_not_close _

end Spindle.Json
