import Spindle.Proofs.Json.WirePersistence

/-!
# Records persist

Both forms of a record are read alike when the text goes on, if its fields are.
-/

namespace Spindle.Json

def Fields.All (P : (α : Type) → Field α → Prop) : {αs : List Type} → Fields αs → Prop
  | [], () => True
  | _ :: _, (f, fs) => P _ f ∧ All P fs

abbrev Fields.Persistent {αs : List Type} (fs : Fields αs) : Prop :=
  fs.All fun _ f => f.reader.Persistent

namespace Record

/-! ### Array form -/

theorem endArray_of_other {s t : List Char} {c : Char} (h : skipBlank s = c :: t)
    (notClose : c ≠ ']') (notComma : c ≠ ',') : endArray s = .error .trailingCharacters := by
  unfold endArray
  rw [h]
  split <;> simp_all

theorem endArray_persists (s more : List Char) :
    Persists s more (endArray s) (endArray (s ++ more)) := by
  refine .afterBlank (e := .endOfList) (fun blank => by rw [endArray, blank]) rfl ?_
  intro c t found grown
  by_cases close : c = ']'
  · rw [close] at found grown
    simp only [endArray, found, grown]
    exact .ok (Nat.le_refl _)
  by_cases comma : c = ','
  · rw [comma] at found grown
    simp only [endArray, found, grown]
    cases blank : skipBlank t with
    | nil => exact .opened rfl
    | cons d u =>
      rw [skipBlank_append blank]
      by_cases close : d = ']'
      · rw [close]
        exact .error _
      · split
        · simp_all
        · exact .opened rfl
  · rw [endArray_of_other found close comma]
    exact .opened rfl

theorem readArray_persists {αs : List Type} {fs : Fields αs} (persistent : fs.Persistent)
    (name : String) (size i : Nat) (s more : List Char) :
    Persists s more (readArray name size i fs s) (readArray name size i fs (s ++ more)) := by
  induction αs generalizing i s with
  | nil =>
    obtain ⟨⟩ := fs
    rw [readArray, readArray]
    have first := endArray_persists s more
    generalize endArray s = x, endArray (s ++ more) = y at first ⊢
    apply first.andThen
    · exact fun _ => rfl
    exact fun _ _ => .ok (Nat.le_refl _)
  | cons α αs ih =>
    obtain ⟨f, fs⟩ := fs
    obtain ⟨head, tail⟩ := persistent
    rw [readArray, readArray]
    have next := nextItem_persists (i = 0) s more
    generalize nextItem _ s = x, nextItem _ (s ++ more) = y at next ⊢
    apply next.andThen
    · exact fun _ => rfl
    rintro (t | rest) -
    · dsimp only [Leaves.rest, Leaves.extend]
      have first := head t more
      generalize f.reader.run t = x, f.reader.run (t ++ more) = y at first ⊢
      apply first.andThen
      · exact fun _ => rfl
      rintro ⟨v, s⟩ -
      dsimp only [Leaves.rest, Leaves.extend]
      have others := ih tail (i + 1) s
      generalize readArray name size (i + 1) fs s = x,
        readArray name size (i + 1) fs (s ++ more) = y at others ⊢
      apply others.andThen
      · exact fun _ => rfl
      exact fun _ _ => .ok (Nat.le_refl _)
    · dsimp only [Leaves.rest, Leaves.extend]
      split
      · exact .error _
      · exact .value (Nat.le_refl _)

/-! ### Object form -/

instance : Leaves NextMember where
  rest
    | .key s => s
    | .close rest => rest
  extend
    | .key s, more => .key (s ++ more)
    | .close rest, more => .close (rest ++ more)

theorem nextMember_persists (first : Bool) (s more : List Char) :
    Persists s more (nextMember first s) (nextMember first (s ++ more)) := by
  refine .afterBlank (e := .endOfObject) (fun blank => by rw [nextMember, blank]) rfl ?_
  intro c t found grown
  simp only [nextMember, found, grown]
  split
  · exact .ok (Nat.le_refl _)
  split
  · split
    · exact .ok (Nat.le_refl _)
    · exact .error _
  split
  · refine .afterBlank (e := .endOfValue) (fun blank => by rw [blank]) rfl ?_
    intro d u found grown
    rw [found, grown]
    dsimp only
    split
    · exact .ok (Nat.le_refl _)
    split
    · exact .error _
    · exact .error _
  · exact .error _

theorem readMember_persists {r : Reader α} (persistent : r.Persistent) (s more : List Char) :
    Persists s more (readMember (β := β) r s) (readMember (β := β) r (s ++ more)) := by
  unfold readMember
  have colon := Document.readColon_persists s more
  generalize Document.readColon s = x, Document.readColon (s ++ more) = y at colon ⊢
  apply colon.andThen
  · exact fun _ => rfl
  rintro s -
  dsimp only [Leaves.rest, Leaves.extend, id]
  have first := persistent s more
  generalize r.run s = x, r.run (s ++ more) = y at first ⊢
  apply first.andThen
  · exact fun _ => rfl
  exact fun _ _ => .ok (Nat.le_refl _)

theorem place_persistent {αs : List Type} {fs : Fields αs} (persistent : fs.Persistent)
    {slots : Slots αs} {key : String} {r : Reader (Slots αs)} (free : fs.place slots key = .free r) :
    r.Persistent := by
  induction αs with
  | nil =>
    obtain ⟨⟩ := fs
    cases free
  | cons α αs ih =>
    obtain ⟨f, fs⟩ := fs
    obtain ⟨slot, slots⟩ := slots
    obtain ⟨head, tail⟩ := persistent
    simp only [Fields.place] at free
    split at free
    · cases slot with
      | none =>
        cases free
        exact head.map _
      | some v => cases free
    · cases placed : Fields.place fs slots key with
      | unknown =>
        rw [placed] at free
        cases free
      | taken =>
        rw [placed] at free
        cases free
      | free r =>
        rw [placed] at free
        cases free
        exact (ih tail placed).map _

theorem stepObject_persists {αs : List Type} {fs : Fields αs} (persistent : fs.Persistent)
    (state : Bool × Slots αs) (s more : List Char) :
    Persists s more (stepObject fs state s) (stepObject fs state (s ++ more)) := by
  unfold stepObject
  have next := nextMember_persists state.1 s more
  generalize nextMember state.1 s = x, nextMember state.1 (s ++ more) = y at next ⊢
  apply next.andThen
  · exact fun _ => rfl
  rintro (t | rest) -
  · dsimp only [Leaves.rest, Leaves.extend]
    have key := Quoted.read_persists true t more
    generalize Quoted.read true t = x, Quoted.read true (t ++ more) = y at key ⊢
    apply key.andThen
    · exact fun _ => rfl
    rintro ⟨key, s⟩ -
    dsimp only [Leaves.rest, Leaves.extend]
    split
    · exact readMember_persists (skipped_persistent.map _) s more
    · exact .error _
    · rename_i free
      exact readMember_persists (place_persistent persistent free) s more
  · dsimp only [Leaves.rest, Leaves.extend]
    split
    · exact .error _
    · exact .ok (Nat.le_refl _)

/-! ### Either form -/

theorem readValues_persists {αs : List Type} {r : Record S αs} (persistent : r.fields.Persistent)
    (c : Char) (s more : List Char) :
    Persists s more (r.readValues c s) (r.readValues c (s ++ more)) := by
  unfold readValues
  split
  · exact readArray_persists persistent r.name αs.length 0 s more
  split
  · exact (object r.fields).run_persists (stepObject_persists persistent) _ s more
  · exact mismatch_persists _ c s more

theorem reader_persistent {αs : List Type} {r : Record S αs} (persistent : r.fields.Persistent) :
    r.reader.Persistent := by
  change ((Reader.afterBlanks r.readValues readValues_le).map _).Persistent
  exact (Reader.Persistent.afterBlanks (readValues_persists persistent)).map _

end Record

end Spindle.Json
