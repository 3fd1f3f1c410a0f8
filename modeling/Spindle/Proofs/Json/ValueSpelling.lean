import Mathlib.Data.List.Forall2
import Spindle.Proofs.Json.Endings
import Spindle.Proofs.Json.TokenSpelling
import Spindle.Proofs.Json.WirePersistence

/-!
# Values in another spelling

A reader that respects spellings reads the same value of every spelling of a text, and leaves
spellings of the same rest. Here are integers, truth values, strings, optional values, lists, tags and
values that are passed over.
-/

namespace Spindle.Json

/-- Reads the same value of every spelling of a text. -/
def Reader.Respects (r : Reader α) : Prop :=
  ∀ {s s' : List Char} {v : α} {rest : List Char}, Respelled s s' → r.run s = .ok (v, rest) →
    ∃ rest', r.run s' = .ok (v, rest') ∧ Respelled rest rest'

class SpellingFree (α : Type) [Wire α] : Prop where
  respects : (Wire.reader : Reader α).Respects

namespace Reader

theorem Respects.whole {r : Reader α} (respects : r.Respects) {s s' : List Char} {v : α}
    (respelled : Respelled s s') (reads : r.whole s = .ok v) : r.whole s' = .ok v := by
  obtain ⟨rest, blank, run⟩ := whole_eq_ok.mp reads
  obtain ⟨rest', run', others⟩ := respects respelled run
  exact whole_eq_ok.mpr
    ⟨rest', skipBlank_eq_nil.mp (others.skipBlank_nil (skipBlank_eq_nil.mpr blank)), run'⟩

theorem Respects.map {r : Reader α} (respects : r.Respects) (f : α → β) :
    (r.map f).Respects := by
  intro s s' w rest respelled reads
  obtain ⟨v, value, rfl⟩ := map_eq_ok.mp reads
  obtain ⟨rest', value', others⟩ := respects respelled value
  exact ⟨rest', map_eq_ok.mpr ⟨v, value', rfl⟩, others⟩

theorem respects_afterBlanks {run : Char → List Char → Except Error (α × List Char)}
    {shorter : ∀ {c s v rest}, run c s = .ok (v, rest) → rest.length ≤ s.length}
    (respects : ∀ {c t t' v rest}, Begins c t t' → run c t = .ok (v, rest) →
      ∃ rest', run c t' = .ok (v, rest') ∧ Respelled rest rest') :
    (Reader.afterBlanks run shorter).Respects := by
  intro s s' v rest respelled reads
  obtain ⟨c, t, found, reads⟩ := afterBlanks_eq_ok.mp reads
  obtain ⟨t', found', begins⟩ := respelled.skipBlank_cons found
  obtain ⟨rest', reads', others⟩ := respects begins reads
  exact ⟨rest', afterBlanks_eq_ok.mpr ⟨c, t', found', reads'⟩, others⟩

end Reader

/-! ### Loops -/

/-- Turns that go on alike, or end with values that `V` takes for one another. -/
inductive Turn.Alike (R : σ → σ → Prop) (V : α → α → Prop) : Turn σ α → Turn σ α → Prop where
  | again {state state' : σ} {s s' : List Char} (states : R state state')
      (others : Respelled s s') : Alike R V (.again state s) (.again state' s')
  | done {v v' : α} {s s' : List Char} (values : V v v') (others : Respelled s s') :
      Alike R V (.done v s) (.done v' s')

theorem Loop.run_respelled {l : Loop σ α} {R : σ → σ → Prop} {V : α → α → Prop}
    (step : ∀ {state state' s s' turn}, R state state' → Respelled s s' →
      l.step state s = .ok turn → ∃ turn', l.step state' s' = .ok turn' ∧ turn.Alike R V turn')
    {state state' : σ} {s s' : List Char} {v : α} {rest : List Char} (states : R state state')
    (respelled : Respelled s s') (reads : l.run state s = .ok (v, rest)) :
    ∃ v' rest', l.run state' s' = .ok (v', rest') ∧ V v v' ∧ Respelled rest rest' := by
  fun_induction run l state s generalizing state' s' with
  | case1 => cases reads
  | case2 state s v rest done =>
    cases reads
    obtain ⟨turn', done', alike⟩ := step states respelled done
    cases alike with
    | done values others => exact ⟨_, _, run_done done', values, others⟩
  | case3 state s next t again ih =>
    obtain ⟨turn', again', alike⟩ := step states respelled again
    cases alike with
    | again states others =>
      rw [run_again again']
      exact ih states others reads

/-! ### Words and numbers -/

theorem readWord_begins {c : Char} {x t t' rest : List Char} (begins : Begins c t t')
    (first : inWord c = true) (chars : ∀ d ∈ x, inWord d = true) (reads : readWord x t = .ok rest) :
    ∃ rest', readWord x t' = .ok rest' ∧ Respelled rest rest' := by
  obtain ⟨w, s, s', rfl, rfl, word, ends, ends', others⟩ := begins.of_word first
  obtain ⟨v, suffix, rfl, reads'⟩ := readWord_respelled chars ends reads
  exact ⟨v ++ s', reads', .of_word (inWord_isSuffix word suffix) ends ends' others⟩

theorem Literal.read_begins {e : Error} {c : Char} {t t' rest : List Char} {l : Literal}
    (begins : Begins c t t') (first : inWord c = true) (reads : Literal.read e (c :: t) = .ok (l, rest)) :
    ∃ rest', Literal.read e (c :: t') = .ok (l, rest') ∧ Respelled rest rest' := by
  obtain ⟨w, s, s', rfl, rfl, word, ends, ends', others⟩ := begins.of_word first
  obtain ⟨v, suffix, rfl, reads'⟩ := read_respelled ends.delimits ends'.delimits c w reads
  exact ⟨v ++ s', reads', .of_word (inWord_isSuffix word suffix) ends ends' others⟩

theorem Quoted.read_begins {t t' cs rest : List Char} (begins : Begins '"' t t')
    (reads : Quoted.read true t = .ok (cs, rest)) :
    ∃ rest', Quoted.read true t' = .ok (cs, rest') ∧ Respelled rest rest' := by
  obtain ⟨u, u', s, s', rfl, rfl, body, others⟩ := begins.of_quote
  obtain ⟨rfl, reads'⟩ := body.read reads s'
  exact ⟨s', reads', others⟩

/-- Read leniently, another spelling may be another string, but it ends at the same place. -/
theorem Quoted.read_lenient_begins {t t' cs rest : List Char} (begins : Begins '"' t t')
    (reads : Quoted.read false t = .ok (cs, rest)) :
    ∃ cs' rest', Quoted.read false t' = .ok (cs', rest') ∧ Respelled rest rest' := by
  obtain ⟨u, u', s, s', rfl, rfl, body, others⟩ := begins.of_quote
  obtain ⟨_, token⟩ := Quoted.read_body body.bodies.1
  obtain ⟨cs', token'⟩ := Quoted.read_body body.bodies.2
  rw [token] at reads
  cases reads
  exact ⟨cs', s', token' s', others⟩

section
variable {c : Char} {t t' rest : List Char} (begins : Begins c t t')
include begins

theorem readInteger_respelled {expected : String} {convert : Int → Option α} {v : α}
    (reads : readInteger expected convert c t = .ok (v, rest)) :
    ∃ rest', readInteger expected convert c t' = .ok (v, rest') ∧ Respelled rest rest' := by
  obtain ⟨starts, l, z, token, number, converted⟩ := readInteger_eq_ok.mp reads
  obtain ⟨rest', token', others⟩ := Literal.read_begins begins (inWord_of_startsNumber starts) token
  exact ⟨rest', readInteger_eq_ok.mpr ⟨starts, l, z, token', number, converted⟩, others⟩

theorem readBoolean_respelled {v : Bool} (reads : readBoolean c t = .ok (v, rest)) :
    ∃ rest', readBoolean c t' = .ok (v, rest') ∧ Respelled rest rest' := by
  obtain ⟨rfl, word, rfl⟩ | ⟨rfl, word, rfl⟩ := readBoolean_eq_ok.mp reads
  · obtain ⟨rest', word', others⟩ := readWord_begins begins rfl (List.all_eq_true.mp rfl) word
    exact ⟨rest', readBoolean_eq_ok.mpr (.inl ⟨rfl, word', rfl⟩), others⟩
  · obtain ⟨rest', word', others⟩ := readWord_begins begins rfl (List.all_eq_true.mp rfl) word
    exact ⟨rest', readBoolean_eq_ok.mpr (.inr ⟨rfl, word', rfl⟩), others⟩

theorem readString_respelled {v : String} (reads : readString c t = .ok (v, rest)) :
    ∃ rest', readString c t' = .ok (v, rest') ∧ Respelled rest rest' := by
  obtain ⟨rfl, cs, token, rfl⟩ := readString_eq_ok.mp reads
  obtain ⟨rest', token', others⟩ := Quoted.read_begins begins token
  exact ⟨rest', readString_eq_ok.mpr ⟨rfl, cs, token', rfl⟩, others⟩

theorem readUnit_respelled {v : Unit} (reads : readUnit c t = .ok (v, rest)) :
    ∃ rest', readUnit c t' = .ok (v, rest') ∧ Respelled rest rest' := by
  obtain ⟨rfl, word⟩ := readUnit_eq_ok.mp reads
  obtain ⟨rest', word', others⟩ := readWord_begins begins rfl (List.all_eq_true.mp rfl) word
  exact ⟨rest', readUnit_eq_ok.mpr ⟨rfl, word'⟩, others⟩

end

theorem integer_respects (expected : String) (convert : Int → Option α) :
    (integer expected convert).Respects := Reader.respects_afterBlanks fun begins => readInteger_respelled begins

instance : SpellingFree UInt64 := ⟨integer_respects _ _⟩

instance : SpellingFree UInt32 := ⟨integer_respects _ _⟩

instance : SpellingFree Int32 := ⟨integer_respects _ _⟩

instance : SpellingFree Bool := ⟨Reader.respects_afterBlanks fun begins => readBoolean_respelled begins⟩

instance : SpellingFree String := ⟨Reader.respects_afterBlanks fun begins => readString_respelled begins⟩

theorem unit_respects : unit.Respects := Reader.respects_afterBlanks fun begins => readUnit_respelled begins

/-! ### Optional values -/

theorem readOption_respects {r : Reader α} (respects : r.Respects) :
    (⟨readOption r, readOption_shorter⟩ : Reader (Option α)).Respects := by
  intro s s' v rest respelled reads
  obtain ⟨t, found, word, rfl⟩ | ⟨other, w, value, rfl⟩ := readOption_eq_ok.mp reads
  · obtain ⟨t', found', begins⟩ := respelled.skipBlank_cons found
    obtain ⟨rest', word', others⟩ := readWord_begins begins rfl (List.all_eq_true.mp rfl) word
    exact ⟨rest', readOption_eq_ok.mpr (.inl ⟨t', found', word', rfl⟩), others⟩
  · have other' : (skipBlank s').head? ≠ some 'n' := by
      obtain ⟨-, empty⟩ | ⟨c, t, t', found, found', -⟩ := respelled.skipBlank
      · rw [empty]
        simp
      · rwa [found', List.head?_cons, ← List.head?_cons (l := t), ← found]
    obtain ⟨rest', value', others⟩ := respects respelled.skipped value
    exact ⟨rest', readOption_eq_ok.mpr (.inr ⟨other', w, value', rfl⟩), others⟩

instance [Wire α] [SpellingFree α] : SpellingFree (Option α) :=
  ⟨readOption_respects SpellingFree.respects⟩

/-! ### Lists -/

theorem nextItem_close_respelled {first : Bool} {s s' rest : List Char} (respelled : Respelled s s')
    (next : nextItem first s = .ok (.close rest)) :
    ∃ rest', nextItem first s' = .ok (.close rest') ∧ Respelled rest rest' := by
  obtain ⟨t', found, begins⟩ := respelled.skipBlank_cons (nextItem_eq_close.mp next)
  exact ⟨t', nextItem_eq_close.mpr found, begins.of_mark rfl⟩

theorem nextItem_item_respelled {first : Bool} {s s' t : List Char} (respelled : Respelled s s')
    (next : nextItem first s = .ok (.item t)) :
    ∃ t', nextItem first s' = .ok (.item t') ∧ Respelled t t' := by
  obtain ⟨c, u, rfl, notClose, found⟩ := nextItem_eq_item.mp next
  cases first with
  | true =>
    obtain ⟨u', found', begins⟩ := respelled.skipBlank_cons (show skipBlank s = c :: u from found)
    exact ⟨_, nextItem_eq_item.mpr ⟨c, u', rfl, notClose, found'⟩, begins.respelled⟩
  | false =>
    obtain ⟨v, comma, found⟩ := show ∃ v, skipBlank s = ',' :: v ∧ skipBlank v = c :: u from found
    obtain ⟨v', comma', begins⟩ := respelled.skipBlank_cons comma
    obtain ⟨u', found', begins⟩ := (begins.of_mark rfl).skipBlank_cons found
    exact ⟨_, nextItem_eq_item.mpr ⟨c, u', rfl, notClose, v', comma', found'⟩, begins.respelled⟩

theorem readItem_respelled {item : Reader α} (respects : item.Respects) {read read' : List α}
    {s s' : List Char} {turn : Turn (List α) (List α)} (states : read = read')
    (respelled : Respelled s s') (step : readItem item read s = .ok turn) :
    ∃ turn', readItem item read' s' = .ok turn' ∧ turn.Alike Eq Eq turn' := by
  subst states
  obtain ⟨rest, next, rfl⟩ | ⟨t, v, rest, next, value, rfl⟩ := readItem_eq_ok.mp step
  · obtain ⟨rest', next', others⟩ := nextItem_close_respelled respelled next
    exact ⟨_, readItem_eq_ok.mpr (.inl ⟨rest', next', rfl⟩), .done rfl others⟩
  · obtain ⟨t', next', others⟩ := nextItem_item_respelled respelled next
    obtain ⟨rest', value', others⟩ := respects others value
    exact ⟨_, readItem_eq_ok.mpr (.inr ⟨t', v, rest', next', value', rfl⟩), .again rfl others⟩

theorem readList_respelled {item : Reader α} (respects : item.Respects) {c : Char}
    {t t' rest : List Char} {vs : List α} (begins : Begins c t t')
    (reads : readList item c t = .ok (vs, rest)) :
    ∃ rest', readList item c t' = .ok (vs, rest') ∧ Respelled rest rest' := by
  obtain ⟨rfl, run⟩ := readList_eq_ok.mp reads
  obtain ⟨vs', rest', run', rfl, others⟩ := Loop.run_respelled (l := items item)
    (readItem_respelled respects) rfl (begins.of_mark rfl) run
  exact ⟨rest', readList_eq_ok.mpr ⟨rfl, run'⟩, others⟩

instance [Wire α] [SpellingFree α] : SpellingFree (List α) where
  respects := by
    change (Reader.afterBlanks (readList Wire.reader) readList_le).Respects
    refine Reader.respects_afterBlanks fun begins reads => ?_
    exact readList_respelled SpellingFree.respects begins reads

/-! ### Tags -/

theorem Document.readColon_respelled {s s' rest : List Char} (respelled : Respelled s s')
    (reads : readColon s = .ok rest) : ∃ rest', readColon s' = .ok rest' ∧ Respelled rest rest' := by
  cases found : skipBlank s with
  | nil => simp [readColon, found] at reads
  | cons c t =>
    obtain ⟨t', found', begins⟩ := respelled.skipBlank_cons found
    by_cases colon : c = ':'
    · subst colon
      rw [readColon_of_colon found] at reads
      cases reads
      exact ⟨t', readColon_of_colon found', begins.of_mark rfl⟩
    · rw [readColon_of_other found colon] at reads
      cases reads

namespace Tags

variable (t : Tags α)

theorem readKeyed_respelled {s s' rest : List Char} {v : α} (respelled : Respelled s s')
    (reads : t.readKeyed s = .ok (v, rest)) :
    ∃ rest', t.readKeyed s' = .ok (v, rest') ∧ Respelled rest rest' := by
  obtain ⟨s₁, tag, s₂, s₃, s₄, found, name, known, colon, null, close⟩ := readKeyed_eq_ok.mp reads
  obtain ⟨s₁', found', begins⟩ := respelled.skipBlank_cons found
  obtain ⟨s₂', name', others⟩ := Quoted.read_begins begins name
  obtain ⟨s₃', colon', others⟩ := Document.readColon_respelled others colon
  obtain ⟨s₄', null', others⟩ := unit_respects others null
  obtain ⟨rest', close', begins⟩ := others.skipBlank_cons close
  exact ⟨rest', readKeyed_eq_ok.mpr
    ⟨s₁', tag, s₂', s₃', s₄', found', name', known, colon', null', close'⟩, begins.of_mark rfl⟩

theorem read_respelled {c : Char} {s s' rest : List Char} {v : α} (begins : Begins c s s')
    (reads : t.read c s = .ok (v, rest)) :
    ∃ rest', t.read c s' = .ok (v, rest') ∧ Respelled rest rest' := by
  obtain ⟨rfl, tag, token, known⟩ | ⟨rfl, keyed⟩ := read_eq_ok.mp reads
  · obtain ⟨rest', token', others⟩ := Quoted.read_begins begins token
    exact ⟨rest', read_eq_ok.mpr (.inl ⟨rfl, tag, token', known⟩), others⟩
  · obtain ⟨rest', keyed', others⟩ := t.readKeyed_respelled (begins.of_mark rfl) keyed
    exact ⟨rest', read_eq_ok.mpr (.inr ⟨rfl, keyed'⟩), others⟩

theorem reader_respects : t.reader.Respects := Reader.respects_afterBlanks t.read_respelled

end Tags

/-! ### Values that are passed over -/

namespace Document

/-- Frames in which as much is due. -/
inductive Frame.Alike : Frame → Frame → Prop where
  | list {items items' : List Value} (same : items.isEmpty = items'.isEmpty) :
      Alike (.list items) (.list items')
  | object {members members' : List (String × Value)} {key key' : String}
      (same : members.isEmpty = members'.isEmpty) :
      Alike (.object members key) (.object members' key')

inductive State.Alike : State → State → Prop where
  | value {stack stack' : List Frame} (frames : List.Forall₂ Frame.Alike stack stack') :
      Alike (.value stack) (.value stack')
  | list {items items' : List Value} {stack stack' : List Frame}
      (same : items.isEmpty = items'.isEmpty) (frames : List.Forall₂ Frame.Alike stack stack') :
      Alike (.list items stack) (.list items' stack')
  | object {members members' : List (String × Value)} {stack stack' : List Frame}
      (same : members.isEmpty = members'.isEmpty)
      (frames : List.Forall₂ Frame.Alike stack stack') :
      Alike (.object members stack) (.object members' stack')

/-- Nothing is said of the values, only that both texts have one. -/
abbrev TurnAlike : Turn State Value → Turn State Value → Prop :=
  Turn.Alike State.Alike fun _ _ => True

theorem Leaf.respelled {c : Char} {t t' rest : List Char} {v : Value} (leaf : Leaf false c t v rest)
    (begins : Begins c t t') :
    ∃ v' rest', Leaf false c t' v' rest' ∧ Respelled rest rest' := by
  cases leaf with
  | string token =>
    obtain ⟨cs', rest', token', others⟩ := Quoted.read_lenient_begins begins token
    exact ⟨_, rest', .string token', others⟩
  | number starts token =>
    obtain ⟨rest', token', others⟩ :=
      Literal.read_begins begins (inWord_of_startsNumber starts) token
    exact ⟨_, rest', .number starts token', others⟩
  | null word =>
    obtain ⟨rest', word', others⟩ := readWord_begins begins rfl (List.all_eq_true.mp rfl) word
    exact ⟨_, rest', .null word', others⟩
  | yes word =>
    obtain ⟨rest', word', others⟩ := readWord_begins begins rfl (List.all_eq_true.mp rfl) word
    exact ⟨_, rest', .yes word', others⟩
  | no word =>
    obtain ⟨rest', word', others⟩ := readWord_begins begins rfl (List.all_eq_true.mp rfl) word
    exact ⟨_, rest', .no word', others⟩

section
variable {stack stack' : List Frame} (frames : List.Forall₂ Frame.Alike stack stack')
include frames

theorem close_alike (v v' : Value) {s s' : List Char} (others : Respelled s s') :
    TurnAlike (close v stack s) (close v' stack' s') := by
  cases frames with
  | nil => exact .done trivial others
  | cons frame frames =>
    cases frame with
    | list => exact .again (.list rfl frames) others
    | object => exact .again (.object rfl frames) others

theorem readValue_respelled {c : Char} {t t' : List Char} {turn : Turn State Value}
    (begins : Begins c t t') (reads : readValue false stack c t = .ok turn) :
    ∃ turn', readValue false stack' c t' = .ok turn' ∧ TurnAlike turn turn' := by
  obtain ⟨rfl, rfl⟩ | ⟨rfl, rfl⟩ | ⟨v, rest, leaf, rfl⟩ := readValue_eq_ok.mp reads
  · exact ⟨_, rfl, .again (.list rfl frames) (begins.of_mark rfl)⟩
  · exact ⟨_, rfl, .again (.object rfl frames) (begins.of_mark rfl)⟩
  · obtain ⟨v', rest', leaf', others⟩ := leaf.respelled begins
    exact ⟨_, leaf'.readValue stack', close_alike frames v v' others⟩

theorem readKey_respelled {members members' : List (String × Value)}
    (same : members.isEmpty = members'.isEmpty) {s s' : List Char} {turn : Turn State Value}
    (respelled : Respelled s s') (reads : readKey false members stack s = .ok turn) :
    ∃ turn', readKey false members' stack' s' = .ok turn' ∧ TurnAlike turn turn' := by
  obtain ⟨t, key, u, after, found, name, colon, rfl⟩ := readKey_eq_ok.mp reads
  obtain ⟨t', found', begins⟩ := respelled.skipBlank_cons found
  obtain ⟨key', u', name', others⟩ := Quoted.read_lenient_begins begins name
  obtain ⟨after', colon', others⟩ := readColon_respelled others colon
  exact ⟨_, readKey_eq_ok.mpr ⟨t', key', u', after', found', name', colon', rfl⟩,
    .again (.value (.cons (.object same) frames)) others⟩

end

theorem step_respelled {state state' : State} {s s' : List Char} {turn : Turn State Value}
    (states : state.Alike state') (respelled : Respelled s s')
    (step : Document.step false state s = .ok turn) :
    ∃ turn', Document.step false state' s' = .ok turn' ∧ TurnAlike turn turn' := by
  cases states with
  | value frames =>
    obtain ⟨c, t, found, value⟩ := step_value_eq_ok.mp step
    obtain ⟨t', found', begins⟩ := respelled.skipBlank_cons found
    obtain ⟨turn', value', alike⟩ := readValue_respelled frames begins value
    exact ⟨turn', step_value_eq_ok.mpr ⟨c, t', found', value'⟩, alike⟩
  | @list items items' _ _ same frames =>
    obtain ⟨c, t, found, next⟩ := step_list_eq_ok.mp step
    obtain ⟨t', found', begins⟩ := respelled.skipBlank_cons found
    have empty : items = [] ↔ items' = [] := by
      rw [← List.isEmpty_iff, ← List.isEmpty_iff, same]
    obtain ⟨rfl, rfl⟩ | ⟨notClose, none, value⟩ | ⟨rfl, some, rfl⟩ := next
    · exact ⟨_, step_list_eq_ok.mpr ⟨_, t', found', .inl ⟨rfl, rfl⟩⟩,
        close_alike frames _ _ (begins.of_mark rfl)⟩
    · obtain ⟨turn', value', alike⟩ := readValue_respelled (.cons (.list rfl) frames) begins value
      exact ⟨turn', step_list_eq_ok.mpr
        ⟨c, t', found', .inr (.inl ⟨notClose, empty.mp none, value'⟩)⟩, alike⟩
    · exact ⟨_, step_list_eq_ok.mpr
        ⟨_, t', found', .inr (.inr ⟨rfl, mt empty.mpr some, rfl⟩)⟩,
        .again (.value (.cons (.list same) frames)) (begins.of_mark rfl)⟩
  | @object members members' _ _ same frames =>
    obtain ⟨c, t, found, next⟩ := step_object_eq_ok.mp step
    obtain ⟨t', found', begins⟩ := respelled.skipBlank_cons found
    have empty : members = [] ↔ members' = [] := by
      rw [← List.isEmpty_iff, ← List.isEmpty_iff, same]
    obtain ⟨rfl, rfl⟩ | ⟨notClose, none, key⟩ | ⟨rfl, some, key⟩ := next
    · exact ⟨_, step_object_eq_ok.mpr ⟨_, t', found', .inl ⟨rfl, rfl⟩⟩,
        close_alike frames _ _ (begins.of_mark rfl)⟩
    · obtain ⟨turn', key', alike⟩ := readKey_respelled frames rfl begins.respelled key
      exact ⟨turn', step_object_eq_ok.mpr
        ⟨c, t', found', .inr (.inl ⟨notClose, empty.mp none, key'⟩)⟩, alike⟩
    · obtain ⟨turn', key', alike⟩ := readKey_respelled frames same (begins.of_mark rfl) key
      exact ⟨turn', step_object_eq_ok.mpr
        ⟨_, t', found', .inr (.inr ⟨rfl, mt empty.mpr some, key'⟩)⟩, alike⟩

end Document

theorem skipped_respects : skipped.Respects := by
  intro s s' v rest respelled reads
  obtain ⟨w, value, rfl⟩ := Reader.map_eq_ok.mp reads
  obtain ⟨w', rest', value', -, others⟩ := Loop.run_respelled (l := Document.loop false)
    Document.step_respelled (.value .nil) respelled value
  exact ⟨rest', Reader.map_eq_ok.mpr ⟨w', value', rfl⟩, others⟩

end Spindle.Json
