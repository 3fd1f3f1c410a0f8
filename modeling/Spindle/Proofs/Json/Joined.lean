import Mathlib.Data.List.Forall2
import Spindle.Proofs.Json.Grammar
import Spindle.Proofs.Json.ValuePersistence

/-!
# Items and members with their commas

What the readers of lists and objects find at the places between items or members. A list is read
item by item: one step takes an item with its comma, and then come the other items or the bracket.
-/

namespace Spindle.Json

/-- An item with the comma that it needs after others. -/
def due (first : Bool) (d : List Char) : List Char := if first then d else ',' :: d

def joined (first : Bool) : List (List Char) → List Char
  | [] => []
  | d :: ds => due first d ++ following ds

theorem joined_true (ds : List (List Char)) : joined true ds = separated ds := by
  cases ds <;> rfl

theorem joined_false (ds : List (List Char)) : joined false ds = following ds := by
  cases ds <;> rfl

theorem due_append (first : Bool) (d s : List Char) : due first (d ++ s) = due first d ++ s := by
  cases first <;> rfl

theorem joined_singleton (first : Bool) (d : List Char) : joined first [d] = due first d :=
  List.append_nil _

theorem joined_append (first : Bool) (ds others : List (List Char)) :
    joined first (ds ++ others) = joined first ds ++ joined (first && ds.isEmpty) others := by
  cases ds with
  | nil => simp [joined]
  | cons d ds =>
    rw [List.isEmpty_cons, Bool.and_false, joined_false]
    simp [joined, following]

/-- A text at which an item is looked for. -/
def StartsItem (d : List Char) : Prop := ∃ c t, skipBlank d = c :: t ∧ c ≠ ']'

/-! ### What comes next -/

section
variable {b : List Char} (blank : Blank b)
include blank

theorem nextItem_due {d : List Char} (starts : StartsItem d) (first : Bool) (rest : List Char) :
    nextItem first (b ++ (due first d ++ rest)) = .ok (.item (skipBlank (d ++ rest))) := by
  obtain ⟨c, t, found, notClose⟩ := starts
  have grown := skipBlank_append found rest
  rw [grown]
  refine nextItem_eq_item.mpr ⟨c, t ++ rest, rfl, notClose, ?_⟩
  cases first with
  | true => exact (skipBlank_append_of_blank blank _).trans grown
  | false => exact ⟨d ++ rest, skipBlank_blank_cons blank (c := ',') rfl _, grown⟩

theorem nextItem_bracket (first : Bool) (rest : List Char) :
    nextItem first (b ++ ']' :: rest) = .ok (.close rest) :=
  nextItem_eq_close.mpr (skipBlank_blank_cons blank rfl rest)

theorem Document.readColon_append (rest : List Char) : readColon (b ++ ':' :: rest) = .ok rest :=
  readColon_of_colon (skipBlank_blank_cons blank rfl rest)

namespace Record

theorem nextMember_due {m : MemberText} (before : Blank m.before) (first : Bool)
    (rest : List Char) :
    nextMember first (b ++ (due first m.chars ++ rest)) =
      .ok (.key (m.body ++ '"' :: (m.after ++ ':' :: (m.value ++ rest)))) := by
  have quote : skipBlank (m.chars ++ rest) =
      '"' :: (m.body ++ '"' :: (m.after ++ ':' :: (m.value ++ rest))) := by
    rw [← skipBlank_blank_cons before (c := '"') rfl]
    simp [MemberText.chars]
  apply nextMember_eq_key.mpr
  cases first with
  | true => exact (skipBlank_append_of_blank blank _).trans quote
  | false => exact ⟨m.chars ++ rest, skipBlank_blank_cons blank (c := ',') rfl _, quote⟩

theorem nextMember_brace (first : Bool) (rest : List Char) :
    nextMember first (b ++ '\x7d' :: rest) = .ok (.close rest) :=
  nextMember_eq_close.mpr (skipBlank_blank_cons blank rfl rest)

end Record

end

/-! ### Lists -/

/-- Takes a text as an item of a list. -/
structure Reader.TakesItem (r : Reader α) (d : List Char) (v : α) : Prop where
  starts : StartsItem d
  skip : ∀ s, r.run (skipBlank s) = r.run s
  takes : r.Takes d v

theorem readItem_due {r : Reader α} {d : List Char} {v : α} (item : r.TakesItem d v) :
    ∃ b', Blank b' ∧ ∀ read b rest, Blank b → Delimits rest →
      readItem r read (b ++ (due read.isEmpty d ++ rest)) =
        .ok (.again (v :: read) (b' ++ rest)) := by
  obtain ⟨b', blank', takes⟩ := item.takes
  refine ⟨b', blank', fun read b rest blank delimits => readItem_eq_ok.mpr (.inr ?_)⟩
  exact ⟨_, v, _, nextItem_due blank item.starts _ rest, (item.skip _).trans (takes rest delimits),
    rfl⟩

section
variable {r : Reader α} {ds : List (List Char)} {vs : List α}
  (each : List.Forall₂ r.TakesItem ds vs)
include each

/-- After some items a list is read on, from behind the last of them. -/
theorem run_items_joined (read : List α) {b : List Char} (blank : Blank b) :
    ∃ b', Blank b' ∧ ∀ rest, (ds ≠ [] → Delimits rest) →
      (items r).run read (b ++ (joined read.isEmpty ds ++ rest)) =
        (items r).run (vs.reverse ++ read) (b' ++ rest) := by
  induction each generalizing read b with
  | nil => exact ⟨b, blank, fun _ _ => rfl⟩
  | @cons d v ds vs head _ ih =>
    obtain ⟨c, c_blank, step⟩ := readItem_due head
    obtain ⟨b', blank', later⟩ := ih (v :: read) c_blank
    refine ⟨b', blank', fun rest delimits => ?_⟩
    have delimits := delimits (List.cons_ne_nil d ds)
    have later := later rest fun _ => delimits
    rw [List.isEmpty_cons, joined_false] at later
    rw [joined, List.append_assoc, Loop.run_again (step read b _ blank (.following ds delimits)),
      later]
    simp

theorem readList_joined {gap : List Char} (blank : Blank gap) (rest : List Char) :
    readList r '[' (separated ds ++ (gap ++ ']' :: rest)) = .ok (vs, rest) := by
  obtain ⟨b', blank', run⟩ := run_items_joined each [] .nil
  refine readList_eq_ok.mpr ⟨rfl, ?_⟩
  rw [← joined_true]
  refine (run _ fun _ => .blank_append blank (.cons rfl rest)).trans ?_
  rw [← List.append_assoc]
  exact run_items_eq_ok.mpr (.inl ⟨nextItem_bracket (blank'.append blank) _ rest, by simp⟩)

end

end Spindle.Json
