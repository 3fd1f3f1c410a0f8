import Spindle.Proofs.Json.RecordExact
import Spindle.Proofs.Json.ValueSpelling

/-!
# Records in another spelling

A record is read alike from every spelling of an object or an array, if its fields are.
-/

namespace Spindle.Json

/-- Every field reads the same value of every spelling. -/
abbrev Fields.SpellingFree {αs : List Type} (fs : Fields αs) : Prop :=
  fs.All fun _ f => f.reader.Respects

namespace Field

variable [Wire α] [SpellingFree α]

theorem required_respects (key : String) : (required key : Field α).reader.Respects :=
  SpellingFree.respects

theorem defaulted_respects (key : String) (default : α) :
    (defaulted key default).reader.Respects := SpellingFree.respects

end Field

namespace Record

section
variable {αs : List Type} {fs : Fields αs}

/-! ### Arrays -/

theorem readArray_respelled (free : fs.SpellingFree) {name : String} {size i : Nat}
    {s s' rest : List Char} {vs : Values αs} (respelled : Respelled s s')
    (reads : readArray name size i fs s = .ok (vs, rest)) :
    ∃ rest', readArray name size i fs s' = .ok (vs, rest') ∧ Respelled rest rest' := by
  induction αs generalizing i s s' with
  | nil =>
    obtain ⟨rest', found, begins⟩ := respelled.skipBlank_cons (readArray_nil.mp reads)
    exact ⟨rest', readArray_nil.mpr found, begins.of_mark rfl⟩
  | cons α αs ih =>
    obtain ⟨f, fs⟩ := fs
    obtain ⟨v, vs⟩ := vs
    obtain ⟨first, later⟩ := free
    obtain ⟨next, beyond⟩ | ⟨t, u, next, value, values⟩ := readArray_cons.mp reads
    · obtain ⟨rest', next', others⟩ := nextItem_close_respelled respelled next
      exact ⟨rest', readArray_cons.mpr (.inl ⟨next', beyond⟩), others⟩
    · obtain ⟨t', next', others⟩ := nextItem_item_respelled respelled next
      obtain ⟨u', value', others⟩ := first others value
      obtain ⟨rest', values', others⟩ := ih later others values
      exact ⟨rest', readArray_cons.mpr (.inr ⟨t', u', next', value', values'⟩), others⟩

/-! ### Objects -/

theorem nextMember_close_respelled {first : Bool} {s s' rest : List Char}
    (respelled : Respelled s s') (next : nextMember first s = .ok (.close rest)) :
    ∃ rest', nextMember first s' = .ok (.close rest') ∧ Respelled rest rest' := by
  obtain ⟨rest', found, begins⟩ := respelled.skipBlank_cons (nextMember_eq_close.mp next)
  exact ⟨rest', nextMember_eq_close.mpr found, begins.of_mark rfl⟩

theorem nextMember_key_respelled {first : Bool} {s s' t : List Char} (respelled : Respelled s s')
    (next : nextMember first s = .ok (.key t)) :
    ∃ t', nextMember first s' = .ok (.key t') ∧ Begins '"' t t' := by
  have found := nextMember_eq_key.mp next
  cases first with
  | true =>
    obtain ⟨t', found', begins⟩ := respelled.skipBlank_cons (show skipBlank s = '"' :: t from found)
    exact ⟨t', nextMember_eq_key.mpr found', begins⟩
  | false =>
    obtain ⟨u, comma, quote⟩ := show ∃ u, skipBlank s = ',' :: u ∧ skipBlank u = '"' :: t from found
    obtain ⟨u', comma', begins⟩ := respelled.skipBlank_cons comma
    obtain ⟨t', quote', begins⟩ := (begins.of_mark rfl).skipBlank_cons quote
    exact ⟨t', nextMember_eq_key.mpr ⟨u', comma', quote'⟩, begins⟩

theorem readMember_respelled {r : Reader α} (respects : r.Respects) {s s' : List Char}
    {turn : Turn (Bool × α) β} (respelled : Respelled s s') (reads : readMember r s = .ok turn) :
    ∃ turn', readMember r s' = .ok turn' ∧ turn.Alike Eq Eq turn' := by
  obtain ⟨t, v, rest, colon, value, rfl⟩ := readMember_eq_ok.mp reads
  obtain ⟨t', colon', others⟩ := Document.readColon_respelled respelled colon
  obtain ⟨rest', value', others⟩ := respects others value
  exact ⟨_, readMember_eq_ok.mpr ⟨t', v, rest', colon', value', rfl⟩, .again rfl others⟩

theorem stepObject_respelled (free : fs.SpellingFree) {state state' : Bool × Slots αs}
    {s s' : List Char} {turn : Turn (Bool × Slots αs) (Values αs)} (states : state = state')
    (respelled : Respelled s s') (step : stepObject fs state s = .ok turn) :
    ∃ turn', stepObject fs state' s' = .ok turn' ∧ turn.Alike Eq Eq turn' := by
  subst states
  obtain ⟨rest, vs, next, complete, rfl⟩ | ⟨t, key, u, r, next, name, place, member⟩ :=
    stepObject_eq_ok.mp step
  · obtain ⟨rest', next', others⟩ := nextMember_close_respelled respelled next
    exact ⟨_, stepObject_eq_ok.mpr (.inl ⟨rest', vs, next', complete, rfl⟩), .done rfl others⟩
  · obtain ⟨t', next', begins⟩ := nextMember_key_respelled respelled next
    obtain ⟨u', name', others⟩ := Quoted.read_begins begins name
    have respects : r.Respects := by
      obtain ⟨-, rfl⟩ | place := place
      · exact skipped_respects.map _
      · obtain ⟨α, f, put, found, rfl⟩ := Fields.place_eq_free place
        exact Reader.Respects.map (free.of_find? found) put
    obtain ⟨turn', member', alike⟩ := readMember_respelled respects others member
    exact ⟨turn', stepObject_eq_ok.mpr (.inr ⟨t', key, u', r, next', name', place, member'⟩), alike⟩

end

/-! ### Either form -/

theorem readValues_respelled {αs : List Type} {r : Record S αs} (free : r.fields.SpellingFree)
    {c : Char} {t t' rest : List Char} {vs : Values αs} (begins : Begins c t t')
    (reads : r.readValues c t = .ok (vs, rest)) :
    ∃ rest', r.readValues c t' = .ok (vs, rest') ∧ Respelled rest rest' := by
  obtain ⟨rfl, array⟩ | ⟨rfl, run⟩ := readValues_eq_ok.mp reads
  · obtain ⟨rest', array', others⟩ := readArray_respelled free (begins.of_mark rfl) array
    exact ⟨rest', readValues_eq_ok.mpr (.inl ⟨rfl, array'⟩), others⟩
  · obtain ⟨vs', rest', run', rfl, others⟩ := Loop.run_respelled (l := Record.object r.fields)
      (stepObject_respelled free) rfl (begins.of_mark rfl) run
    exact ⟨rest', readValues_eq_ok.mpr (.inr ⟨rfl, run'⟩), others⟩

theorem spellingFree {αs : List Type} {r : Record S αs} (free : r.fields.SpellingFree) :
    @SpellingFree S r.wire :=
  let : Wire S := r.wire
  have values : (Reader.afterBlanks r.readValues readValues_le).Respects :=
    Reader.respects_afterBlanks fun begins reads => readValues_respelled free begins reads
  ⟨values.map (Values.apply r.build)⟩

end Record

end Spindle.Json
