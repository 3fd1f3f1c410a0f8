import Spindle.Proofs.Json.ValuePersistence

/-!
# Values on the wire persist

The readers of integers, truth values, strings, optional values, lists and tags read alike when the
text goes on.
-/

namespace Spindle.Json

/-- A type of which every reading persists; an empty text has no value of it. -/
class PersistentWire (α : Type) [Wire α] : Prop where
  persistent : (Wire.reader : Reader α).Persistent
  empty : (Wire.reader : Reader α).run [] = .error .endOfValue

/-! ### A value of another type -/

/-- What has been found is all that is told of a value of another type. -/
instance : Leaves Found := ⟨fun _ => [], fun found _ => found⟩

theorem found_persists (c : Char) (s more : List Char) :
    Persists s more (found c s) (found c (s ++ more)) := by
  unfold found
  split
  · exact .ok (Nat.zero_le _)
  split
  · exact .ok (Nat.zero_le _)
  split
  · have first := Quoted.read_persists true s more
    generalize Quoted.read true s = x, Quoted.read true (s ++ more) = y at first ⊢
    apply first.andThen
    · exact fun _ => rfl
    exact fun _ _ => .ok (Nat.zero_le _)
  split
  · have first := Literal.read_persists (e := .endOfValue) trivial c s more
    generalize Literal.read _ (c :: s) = x, Literal.read _ (c :: (s ++ more)) = y at first ⊢
    apply first.andThen
    · exact fun _ => rfl
    rintro ⟨l, rest⟩ -
    dsimp only [Leaves.rest, Leaves.extend]
    split
    · exact .error _
    · exact .ok (Nat.zero_le _)
    · exact .ok (Nat.zero_le _)
  split
  · have first := readWord_persists ['u', 'l', 'l'] s more
    generalize readWord _ s = x, readWord _ (s ++ more) = y at first ⊢
    apply first.andThen
    · exact fun _ => rfl
    exact fun _ _ => .ok (Nat.zero_le _)
  split
  · have first := readWord_persists ['r', 'u', 'e'] s more
    generalize readWord _ s = x, readWord _ (s ++ more) = y at first ⊢
    apply first.andThen
    · exact fun _ => rfl
    exact fun _ _ => .ok (Nat.zero_le _)
  split
  · have first := readWord_persists ['a', 'l', 's', 'e'] s more
    generalize readWord _ s = x, readWord _ (s ++ more) = y at first ⊢
    apply first.andThen
    · exact fun _ => rfl
    exact fun _ _ => .ok (Nat.zero_le _)
  · exact .error _

theorem mismatch_persists [Leaves β] (expected : String) (c : Char) (s more : List Char) :
    Persists (β := β) s more (.error (mismatch expected c s))
      (.error (mismatch expected c (s ++ more))) := by
  have first := found_persists c s more
  intro closed delimits
  unfold mismatch at closed ⊢
  cases reads : found c s with
  | error e =>
    rw [reads] at first closed
    rw [first closed delimits]
  | ok found =>
    rw [reads] at first
    rw [first.2 fun _ => delimits]
    rfl

/-! ### Integers, truth values and strings -/

theorem readInteger_persists (expected : String) (convert : Int → Option α) (c : Char)
    (s more : List Char) :
    Persists s more (readInteger expected convert c s)
      (readInteger expected convert c (s ++ more)) := by
  unfold readInteger
  split
  · have first := Literal.read_persists (e := .endOfValue) trivial c s more
    generalize Literal.read _ (c :: s) = x, Literal.read _ (c :: (s ++ more)) = y at first ⊢
    apply first.andThen
    · exact fun _ => rfl
    rintro ⟨l, rest⟩ -
    dsimp only [Leaves.rest, Leaves.extend]
    split
    · exact .error _
    · exact .error _
    · split
      · exact .error _
      · exact .value (Nat.le_refl _)
  · exact mismatch_persists expected c s more

theorem integer_persistent (expected : String) (convert : Int → Option α) :
    (integer expected convert).Persistent :=
  .afterBlanks (readInteger_persists expected convert)

instance : PersistentWire UInt64 := ⟨integer_persistent _ _, rfl⟩

instance : PersistentWire UInt32 := ⟨integer_persistent _ _, rfl⟩

instance : PersistentWire Int32 := ⟨integer_persistent _ _, rfl⟩

theorem readBoolean_persists (c : Char) (s more : List Char) :
    Persists s more (readBoolean c s) (readBoolean c (s ++ more)) := by
  unfold readBoolean
  split
  · have first := readWord_persists ['r', 'u', 'e'] s more
    generalize readWord _ s = x, readWord _ (s ++ more) = y at first ⊢
    apply first.andThen
    · exact fun _ => rfl
    exact fun _ _ => .ok (Nat.le_refl _)
  split
  · have first := readWord_persists ['a', 'l', 's', 'e'] s more
    generalize readWord _ s = x, readWord _ (s ++ more) = y at first ⊢
    apply first.andThen
    · exact fun _ => rfl
    exact fun _ _ => .ok (Nat.le_refl _)
  · exact mismatch_persists _ c s more

instance : PersistentWire Bool := ⟨.afterBlanks readBoolean_persists, rfl⟩

theorem readString_persists (c : Char) (s more : List Char) :
    Persists s more (readString c s) (readString c (s ++ more)) := by
  unfold readString
  split
  · have first := Quoted.read_persists true s more
    generalize Quoted.read true s = x, Quoted.read true (s ++ more) = y at first ⊢
    apply first.andThen
    · exact fun _ => rfl
    exact fun _ _ => .ok (Nat.le_refl _)
  · exact mismatch_persists _ c s more

instance : PersistentWire String := ⟨.afterBlanks readString_persists, rfl⟩

/-! ### Optional values -/

theorem readOption_of_null {r : Reader α} {s t : List Char} (h : skipBlank s = 'n' :: t) :
    readOption r s =
      match readWord ['u', 'l', 'l'] t with
      | .error e => .error e
      | .ok rest => .ok (none, rest) := by
  cases found : readWord ['u', 'l', 'l'] t with
  | error e => simp only [readOption, h, found]
  | ok rest => simp only [readOption, h, found]

theorem readOption_of_other {r : Reader α} {s t : List Char} (h : skipBlank s = t)
    (ne : t.head? ≠ some 'n') :
    readOption r s =
      match r.run t with
      | .error e => .error e
      | .ok (v, rest) => .ok (some v, rest) := by
  unfold readOption
  rw [h]
  split
  · cases ne rfl
  · cases r.run t <;> rfl

theorem readOption_persistent {r : Reader α} (persistent : r.Persistent)
    (empty : r.run [] = .error .endOfValue) (s more : List Char) :
    Persists s more (readOption r s) (readOption r (s ++ more)) := by
  refine .afterBlank (e := .endOfValue) (fun blank => ?_) rfl ?_
  · rw [readOption_of_other blank nofun, empty]
  · intro c t found grown
    by_cases null : c = 'n'
    · rw [null] at found grown
      rw [readOption_of_null found, readOption_of_null grown]
      have first := readWord_persists ['u', 'l', 'l'] t more
      generalize readWord _ t = x, readWord _ (t ++ more) = y at first ⊢
      apply first.andThen
      · exact fun _ => rfl
      exact fun _ _ => .ok (Nat.le_refl _)
    · rw [readOption_of_other found (by simpa using null),
        readOption_of_other grown (by simpa using null)]
      have first : Persists t more (r.run (c :: t)) (r.run (c :: (t ++ more))) :=
        (persistent (c :: t) more).narrow fun _ reads => Nat.le_of_lt_succ (r.shorter reads)
      generalize r.run (c :: t) = x, r.run (c :: (t ++ more)) = y at first ⊢
      apply first.andThen
      · exact fun _ => rfl
      exact fun _ _ => .ok (Nat.le_refl _)

instance [Wire α] [PersistentWire α] : PersistentWire (Option α) where
  persistent := readOption_persistent PersistentWire.persistent PersistentWire.empty
  empty := by
    refine (readOption_of_other (s := []) (t := []) rfl nofun).trans ?_
    rw [PersistentWire.empty]

theorem readUnit_persists (c : Char) (s more : List Char) :
    Persists s more (readUnit c s) (readUnit c (s ++ more)) := by
  unfold readUnit
  split
  · have first := readWord_persists ['u', 'l', 'l'] s more
    generalize readWord _ s = x, readWord _ (s ++ more) = y at first ⊢
    apply first.andThen
    · exact fun _ => rfl
    exact fun _ _ => .ok (Nat.le_refl _)
  · exact mismatch_persists _ c s more

theorem unit_persistent : unit.Persistent := .afterBlanks readUnit_persists

/-! ### Lists -/

instance : Leaves Next where
  rest
    | .item s => s
    | .close rest => rest
  extend
    | .item s, more => .item (s ++ more)
    | .close rest, more => .close (rest ++ more)

theorem nextItem_persists (first : Bool) (s more : List Char) :
    Persists s more (nextItem first s) (nextItem first (s ++ more)) := by
  unfold nextItem
  cases blank : skipBlank s with
  | nil => exact .opened rfl
  | cons c t =>
    have shorter := length_lt_of_skipBlank blank
    rw [skipBlank_append blank]
    dsimp only
    split
    · exact .ok (Nat.le_of_lt shorter)
    split
    · exact .ok shorter
    split
    · refine Persists.mono ?_ (Nat.le_of_lt shorter)
      cases blank : skipBlank t with
      | nil => exact .opened rfl
      | cons d t =>
        rw [skipBlank_append blank]
        dsimp only
        split
        · exact .error _
        · exact .ok (length_lt_of_skipBlank blank)
    · exact .error _

theorem readItem_persists {item : Reader α} (persistent : item.Persistent) (read : List α)
    (s more : List Char) : Persists s more (readItem item read s) (readItem item read (s ++ more)) := by
  unfold readItem
  have next := nextItem_persists read.isEmpty s more
  generalize nextItem read.isEmpty s = x, nextItem read.isEmpty (s ++ more) = y at next ⊢
  apply next.andThen
  · exact fun _ => rfl
  rintro (t | rest) -
  · dsimp only [Leaves.rest, Leaves.extend]
    have first := persistent t more
    generalize item.run t = x, item.run (t ++ more) = y at first ⊢
    apply first.andThen
    · exact fun _ => rfl
    exact fun _ _ => .ok (Nat.le_refl _)
  · exact .ok (Nat.le_refl _)

theorem readList_persists {item : Reader α} (persistent : item.Persistent) (c : Char)
    (s more : List Char) : Persists s more (readList item c s) (readList item c (s ++ more)) := by
  unfold readList
  split
  · exact (items item).run_persists (readItem_persists persistent) [] s more
  · exact mismatch_persists _ c s more

instance [Wire α] [PersistentWire α] : PersistentWire (List α) where
  persistent := by
    change (Reader.afterBlanks (readList Wire.reader) readList_le).Persistent
    exact .afterBlanks (readList_persists PersistentWire.persistent)
  empty := rfl

/-! ### Tags -/

namespace Tags

variable (t : Tags α)

theorem readKeyed_of_other {s u : List Char} {c : Char} (h : skipBlank s = c :: u)
    (notClose : c ≠ '\x7d') (notQuote : c ≠ '"') : t.readKeyed s = .error .keyNotString := by
  unfold readKeyed
  rw [h]
  split <;> simp_all

theorem keyedEnd_persists (v : α) (s more : List Char) :
    Persists s more
      (match skipBlank s with
        | [] => .error .endOfObject
        | '\x7d' :: rest => .ok (v, rest)
        | _ => .error .expectedValue)
      (match skipBlank (s ++ more) with
        | [] => .error .endOfObject
        | '\x7d' :: rest => .ok (v, rest)
        | _ => .error .expectedValue) := by
  refine .afterBlank (e := .endOfObject) (fun blank => by rw [blank]) rfl ?_
  intro c u found grown
  rw [found, grown]
  by_cases close : c = '\x7d'
  · rw [close]
    exact .ok (Nat.le_refl _)
  · split
    · simp_all
    · simp_all
    · split <;> simp_all
      exact .error _

theorem readKeyed_persists (s more : List Char) :
    Persists s more (t.readKeyed s) (t.readKeyed (s ++ more)) := by
  refine .afterBlank (e := .endOfObject) (fun blank => by rw [readKeyed, blank]) rfl ?_
  intro c u found grown
  by_cases close : c = '\x7d'
  · rw [close] at found grown
    simp only [readKeyed, found, grown]
    exact .error _
  by_cases quote : c = '"'
  · rw [quote] at found grown
    simp only [readKeyed, found, grown]
    have tag := Quoted.read_persists true u more
    generalize Quoted.read true u = x, Quoted.read true (u ++ more) = y at tag ⊢
    apply tag.andThen
    · exact fun _ => rfl
    rintro ⟨tag, u⟩ -
    dsimp only [Leaves.rest, Leaves.extend]
    split
    · exact .error _
    have colon := Document.readColon_persists u more
    generalize Document.readColon u = x, Document.readColon (u ++ more) = y at colon ⊢
    apply colon.andThen
    · exact fun _ => rfl
    rintro u -
    dsimp only [Leaves.rest, Leaves.extend, id]
    have null := unit_persistent u more
    generalize unit.run u = x, unit.run (u ++ more) = y at null ⊢
    apply null.andThen
    · exact fun _ => rfl
    rintro ⟨⟨⟩, u⟩ -
    exact keyedEnd_persists _ u more
  · rw [t.readKeyed_of_other found close quote, t.readKeyed_of_other grown close quote]
    exact .error _

theorem read_persists (c : Char) (s more : List Char) :
    Persists s more (t.read c s) (t.read c (s ++ more)) := by
  unfold read
  split
  · have tag := Quoted.read_persists true s more
    generalize Quoted.read true s = x, Quoted.read true (s ++ more) = y at tag ⊢
    apply tag.andThen
    · exact fun _ => rfl
    rintro ⟨tag, u⟩ -
    dsimp only [Leaves.rest, Leaves.extend]
    split
    · exact .error _
    · exact .value (Nat.le_refl _)
  split
  · exact t.readKeyed_persists s more
  · exact .error _

theorem reader_persistent : t.reader.Persistent := .afterBlanks t.read_persists

end Tags

end Spindle.Json
