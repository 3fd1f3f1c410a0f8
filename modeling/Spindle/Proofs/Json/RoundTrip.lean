import Spindle.Proofs.Json.Joined
import Spindle.Proofs.Json.Tokens
import Spindle.Proofs.Json.WirePersistence

/-!
# What is written is read back

`LawfulWire α` says that the text written for a value of `α`, with any blanks between its tokens,
is read as that value. Here are integers, truth values, strings, optional values, lists and tags.
-/

namespace Spindle.Json

structure Spacing.Blank (sp : Spacing) : Prop where
  line : ∀ depth, Json.Blank (sp.line depth)
  colon : Json.Blank sp.colon

theorem Spacing.compact_blank : Spacing.compact.Blank := ⟨fun _ => .nil, .nil⟩

theorem Spacing.pretty_blank : Spacing.pretty.Blank where
  line depth c mem := by
    obtain rfl | mem := List.mem_cons.mp mem
    · rfl
    · rw [List.eq_of_mem_replicate mem]
      rfl
  colon c mem := by
    rw [List.mem_singleton.mp mem]
    rfl

/-- A text that starts with a token, and not with the end of a list. -/
def Opens (text : List Char) : Prop := ∃ c s, text = c :: s ∧ isBlank c = false ∧ c ≠ ']'

class LawfulWire (α : Type) [Wire α] : Prop extends PersistentWire α where
  /-- Blanks in front make no difference. -/
  leading {b : List Char} (blank : Blank b) (s : List Char) :
    (Wire.reader : Reader α).run (b ++ s) = (Wire.reader : Reader α).run s
  opens (sp : Spacing) (depth : Nat) (v : α) : Opens ((Wire.write v).chars sp depth)
  reads_back {sp : Spacing} (blank : sp.Blank) (depth : Nat) (v : α) :
    Wire.reader.whole ((Wire.write v).chars sp depth) = .ok v

theorem run_skipBlank [Wire α] [LawfulWire α] (s : List Char) :
    (Wire.reader : Reader α).run (skipBlank s) = (Wire.reader : Reader α).run s := by
  obtain ⟨b, blank, text⟩ := skipBlank_split s
  rw [← LawfulWire.leading blank, ← text]

/-- A type of which no value is written as `null`. -/
class NonNull (α : Type) [Wire α] : Prop where
  head_ne (sp : Spacing) (depth : Nat) (v : α) :
    ((Wire.write v).chars sp depth).head? ≠ some 'n'

/-- Every value is read back from its text, on one line and with one item a line. -/
def RoundTrips (α : Type) [Wire α] : Prop :=
  ∀ v : α, ofText α (Wire.write v).compact = .ok v ∧ ofText α (Wire.write v).pretty = .ok v

theorem roundTrips (α : Type) [Wire α] [LawfulWire α] : RoundTrips α := by
  intro v
  rw [ofText, ofText, Value.compact, Value.pretty, String.toList_ofList, String.toList_ofList]
  exact ⟨LawfulWire.reads_back Spacing.compact_blank 0 v,
    LawfulWire.reads_back Spacing.pretty_blank 0 v⟩

theorem Reader.afterBlanks_leading {run : Char → List Char → Except Error (α × List Char)}
    (shorter : ∀ {c s v rest}, run c s = .ok (v, rest) → rest.length ≤ s.length) {b : List Char}
    (blank : Blank b) (s : List Char) :
    (Reader.afterBlanks run shorter).run (b ++ s) = (Reader.afterBlanks run shorter).run s := by
  simp only [afterBlanks, skipBlank_append_of_blank blank]

theorem Reader.afterBlanks_whole {run : Char → List Char → Except Error (α × List Char)}
    {shorter : ∀ {c s v rest}, run c s = .ok (v, rest) → rest.length ≤ s.length} {c : Char}
    {s : List Char} {v : α} (notBlank : isBlank c = false) (reads : run c s = .ok (v, [])) :
    (Reader.afterBlanks run shorter).whole (c :: s) = .ok v :=
  whole_eq_ok.mpr ⟨[], .nil, (afterBlanks_run (skipBlank_cons notBlank s)).trans reads⟩

/-! ### Integers -/

section
variable {expected : String} {convert : Int → Option α} {z : Int} {v : α}

/-- A literal is read as the integer that it is, if there is a place for that integer. -/
theorem integer_literal {l : Literal} (wellFormed : l.WellFormed) :
    (integer expected convert).whole l.chars =
      match l.number with
      | .error e => .error e
      | .ok (.float x) => .error (.wrongType (.float x) expected)
      | .ok (.integer z) =>
        match convert z with
        | none => .error (.wrongValue (.integer z) expected)
        | some v => .ok v := by
  obtain ⟨c, s, text, starts⟩ := wellFormed.startsNumber
  have read : Literal.read .endOfValue (l.chars ++ []) = .ok (l, []) :=
    Literal.read_append wellFormed nofun
  rw [List.append_nil, text] at read
  have run : (integer expected convert).run (c :: s) = readInteger expected convert c s :=
    Reader.afterBlanks_run (skipBlank_cons (isBlank_of_startsNumber starts) s)
  rw [text, Reader.whole, run]
  simp only [readInteger, if_pos starts, read]
  cases l.number with
  | error e => rfl
  | ok n =>
    cases n with
    | float x => rfl
    | integer z =>
      dsimp only
      cases convert z <;> rfl

theorem integer_whole (least : (-z).toNat ≤ UInt64.size / 2) (most : z.toNat < UInt64.size)
    (fits : convert z = some v) : (integer expected convert).whole (Literal.ofInt z).chars = .ok v := by
  rw [integer_literal (Literal.ofInt_wellFormed z), Literal.number_ofInt least most]
  dsimp only
  rw [fits]

theorem ofInt_head (z : Int) : ∃ c s, (Literal.ofInt z).chars = c :: s ∧
    isBlank c = false ∧ c ≠ ']' ∧ c ≠ 'n' := by
  obtain ⟨c, s, text, starts⟩ := (Literal.ofInt_wellFormed z).startsNumber
  refine ⟨c, s, text, isBlank_of_startsNumber starts, ?_, ?_⟩
  all_goals
    rintro rfl
    cases starts

end

theorem ofInt_opens (z : Int) : Opens (Literal.ofInt z).chars := by
  obtain ⟨c, s, text, notBlank, notClose, -⟩ := ofInt_head z
  exact ⟨c, s, text, notBlank, notClose⟩

theorem ofInt_head_ne (z : Int) : (Literal.ofInt z).chars.head? ≠ some 'n' := by
  obtain ⟨c, s, text, -, -, notNull⟩ := ofInt_head z
  rw [text]
  exact fun first => notNull (Option.some.inj first)

instance : LawfulWire UInt64 where
  leading := Reader.afterBlanks_leading readInteger_le
  opens _ _ n := ofInt_opens n.toNat
  reads_back _ _ n := by
    have small : n.toNat < UInt64.size := n.toNat_lt
    refine integer_whole (by omega) small ?_
    rw [if_pos ⟨by omega, small⟩]
    exact congrArg some n.ofNat_toNat

instance : NonNull UInt64 := ⟨fun _ _ n => ofInt_head_ne n.toNat⟩

instance : LawfulWire UInt32 where
  leading := Reader.afterBlanks_leading readInteger_le
  opens _ _ n := ofInt_opens n.toNat
  reads_back _ _ n := by
    have small : n.toNat < UInt32.size := n.toNat_lt
    refine integer_whole (by omega) (Nat.lt_trans small (by decide)) ?_
    rw [if_pos ⟨by omega, small⟩]
    exact congrArg some n.ofNat_toNat

instance : NonNull UInt32 := ⟨fun _ _ n => ofInt_head_ne n.toNat⟩

instance : LawfulWire Int32 where
  leading := Reader.afterBlanks_leading readInteger_le
  opens _ _ n := ofInt_opens n.toInt
  reads_back _ _ n := by
    have least := n.le_toInt
    have most := n.toInt_lt
    have size : UInt64.size = 2 ^ 64 := rfl
    refine integer_whole (by omega) (by omega) ?_
    rw [if_pos ⟨n.minValue_le_toInt, n.toInt_le⟩]
    exact congrArg some n.ofInt_toInt

instance : NonNull Int32 := ⟨fun _ _ n => ofInt_head_ne n.toInt⟩

/-! ### Truth values and strings -/

instance : LawfulWire Bool where
  leading := Reader.afterBlanks_leading readBoolean_le
  opens _ _ b := by cases b <;> exact ⟨_, _, rfl, rfl, by decide⟩
  reads_back _ _ b := by
    cases b
    · exact Reader.afterBlanks_whole (c := 'f') rfl rfl
    · exact Reader.afterBlanks_whole (c := 't') rfl rfl

instance : NonNull Bool := ⟨fun _ _ b => by cases b <;> exact (nomatch ·)⟩

theorem write_opens (s : List Char) : Opens (Quoted.write s) := ⟨_, _, rfl, rfl, by decide⟩

instance : LawfulWire String where
  leading := Reader.afterBlanks_leading readString_le
  opens _ _ s := write_opens s.toList
  reads_back _ _ s := by
    refine Reader.afterBlanks_whole (c := '"') rfl ?_
    rw [readString, if_pos rfl, Quoted.read_write]
    simp only [String.ofList_toList]

instance : NonNull String := ⟨fun _ _ _ => (nomatch ·)⟩

/-! ### Optional values -/

theorem readOption_leading {r : Reader α} {b : List Char} (blank : Blank b) (s : List Char) :
    readOption r (b ++ s) = readOption r s := by
  simp only [readOption, skipBlank_append_of_blank blank]

instance [Wire α] [LawfulWire α] [NonNull α] : LawfulWire (Option α) where
  leading := readOption_leading
  opens sp depth v := by
    cases v with
    | none => exact ⟨_, _, rfl, rfl, by decide⟩
    | some v => exact LawfulWire.opens sp depth v
  reads_back {sp} blank depth v := by
    cases v with
    | none => rfl
    | some v =>
      obtain ⟨c, s, text, notBlank, -⟩ := LawfulWire.opens sp depth v
      obtain ⟨b, left, reads⟩ := Reader.whole_eq_ok.mp (LawfulWire.reads_back blank depth v)
      have notNull := NonNull.head_ne sp depth v
      refine Reader.whole_eq_ok.mpr ⟨b, left, ?_⟩
      show readOption Wire.reader ((Wire.write v).chars sp depth) = _
      have start : skipBlank ((Wire.write v).chars sp depth) = (Wire.write v).chars sp depth := by
        rw [text, skipBlank_cons notBlank]
      rw [readOption_of_other start notNull, reads]

/-! ### Lists -/

namespace Value

/-- An item of a list as it is written behind the mark in front of it. -/
def itemText (sp : Spacing) (depth : Nat) (v : Value) : List Char :=
  sp.line (depth + 1) ++ v.chars sp (depth + 1)

theorem itemChars_eq (sp : Spacing) (depth : Nat) (vs : List Value) :
    itemChars sp depth vs =
      following (vs.map (itemText sp depth)) ++ (sp.line depth ++ [']']) := by
  induction vs with
  | nil => rfl
  | cons v vs ih =>
    rw [itemChars, ih, List.map_cons, following_cons, itemText]
    simp

theorem chars_array (sp : Spacing) (depth : Nat) (vs : List Value) :
    (Value.array vs).chars sp depth = '[' :: (separated (vs.map (itemText sp depth)) ++
      ((if vs = [] then [] else sp.line depth) ++ [']'])) := by
  cases vs with
  | nil => rfl
  | cons v vs =>
    rw [chars, itemChars_eq, if_neg (List.cons_ne_nil v vs), List.map_cons, separated, itemText]
    simp

end Value

theorem LawfulWire.takesItem [Wire α] [LawfulWire α] {sp : Spacing} (blank : sp.Blank)
    (depth : Nat) (v : α) :
    (Wire.reader : Reader α).TakesItem ((Wire.write v).itemText sp depth) v where
  starts := by
    obtain ⟨c, s, text, notBlank, notClose⟩ := LawfulWire.opens sp (depth + 1) v
    refine ⟨c, s, ?_, notClose⟩
    rw [Value.itemText, text, skipBlank_blank_cons (blank.line _) notBlank]
  skip := run_skipBlank
  takes := by
    obtain ⟨b, left, takes⟩ := (PersistentWire.persistent (α := α)).takes
      (LawfulWire.reads_back blank (depth + 1) v)
    refine ⟨b, left, fun rest delimits => ?_⟩
    rw [Value.itemText, List.append_assoc, LawfulWire.leading (blank.line _)]
    exact takes rest delimits

instance [Wire α] [LawfulWire α] : LawfulWire (List α) where
  leading := Reader.afterBlanks_leading readList_le
  opens sp depth vs := by
    cases vs with
    | nil => exact ⟨_, _, rfl, rfl, by decide⟩
    | cons v vs => exact ⟨_, _, by rfl, rfl, by decide⟩
  reads_back {sp} blank depth vs := by
    have each : List.Forall₂ (Wire.reader : Reader α).TakesItem
        ((vs.map Wire.write).map (Value.itemText sp depth)) vs := by
      rw [List.map_map, List.forall₂_map_left_iff, List.forall₂_same]
      exact fun v _ => LawfulWire.takesItem blank depth v
    have gap : Blank (if vs.map Wire.write = [] then [] else sp.line depth) := by
      split
      · exact .nil
      · exact blank.line depth
    show (Reader.afterBlanks (readList Wire.reader) readList_le).whole
      ((Value.array (vs.map Wire.write)).chars sp depth) = _
    rw [Value.chars_array]
    exact Reader.afterBlanks_whole (c := '[') rfl (readList_joined each gap [])

instance [Wire α] : NonNull (List α) where
  head_ne sp depth vs := by
    cases vs <;> exact (nomatch ·)

/-! ### Tags -/

namespace Tags

variable {t : Tags α}

theorem whole_write {tag : String} {v : α} (known : t.ofTag tag = .ok v) :
    t.reader.whole (Quoted.write tag.toList) = .ok v := by
  refine Reader.afterBlanks_whole (c := '"') rfl ?_
  rw [read, if_pos rfl, Quoted.read_write]
  simp only [String.ofList_toList, known]

theorem lawfulWire {tag : α → String} (known : ∀ v, t.ofTag (tag v) = .ok v) :
    @LawfulWire α ⟨t.reader, fun v => .string (tag v)⟩ :=
  let : Wire α := ⟨t.reader, fun v => .string (tag v)⟩
  { persistent := t.reader_persistent
    empty := rfl
    leading := Reader.afterBlanks_leading read_le
    opens := fun _ _ v => write_opens (tag v).toList
    reads_back := fun _ _ v => whole_write (known v) }

end Tags

end Spindle.Json
