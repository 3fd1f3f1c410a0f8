import Mathlib.Data.List.Forall2
import Spindle.Proofs.Json.RecordRoundTrip

/-!
# Lists are read item by item

What an item says on its own it says in a list: the list has the values of its items in their
order, and the first item with a fault is the fault of the list, whatever comes after it. Two kinds
of items are apart: one whose fault is that its text ends too early or goes on too long, and one
that starts with `]`, which ends the list.
-/

namespace Spindle.Json

/-- A text that ends a list where an item is due. -/
def ClosesList (s : List Char) : Prop := (skipBlank s).head? = some ']'

instance (s : List Char) : Decidable (ClosesList s) :=
  inferInstanceAs (Decidable ((skipBlank s).head? = some ']'))

/-- A type of which no value starts with the bracket that ends a list. -/
class ListItem (α : Type) [Wire α] : Prop extends LawfulWire α where
  not_close (s : List Char) : (Wire.reader : Reader α).run (']' :: s) = .error .expectedValue

theorem Record.Lawful.listItem {αs : List Type} {r : Record S αs} (lawful : r.Lawful) :
    @ListItem S r.wire :=
  let := r.wire
  { lawful.wire with not_close := fun _ => rfl }

/-! ### An item on its own -/

theorem Reader.Persistent.fails {r : Reader α} (persistent : r.Persistent) {text : List Char}
    {e : Error} (fails : r.whole text = .error e) (closed : e.isOpen = false) {rest : List Char}
    (delimits : Delimits rest) : r.run (text ++ rest) = .error e := by
  have persists := persistent text rest
  unfold whole at fails
  cases run : r.run text with
  | error e' =>
    rw [run] at fails persists
    obtain rfl := Except.error.inj fails
    exact persists closed delimits
  | ok read =>
    -- what is left over is the only fault, and more text may mend it
    rw [run] at fails
    dsimp only at fails
    split at fails
    · cases fails
    · obtain rfl := Except.error.inj fails
      cases closed

theorem startsItem_of_closed [Wire α] [LawfulWire α] {d : List Char} {e : Error}
    (fails : (Wire.reader : Reader α).whole d = .error e) (closed : e.isOpen = false)
    (notClose : ¬ ClosesList d) : StartsItem d := by
  cases found : skipBlank d with
  | nil =>
    have run := run_skipBlank (α := α) d
    rw [found, PersistentWire.empty] at run
    rw [Reader.whole, ← run] at fails
    obtain rfl := Except.error.inj fails
    cases closed
  | cons c t =>
    refine ⟨c, t, found, fun close => notClose ?_⟩
    rw [ClosesList, found, close]
    rfl

theorem startsItem_of_reads [Wire α] [ListItem α] {d : List Char} {v : α}
    (reads : (Wire.reader : Reader α).whole d = .ok v) : StartsItem d := by
  obtain ⟨b, -, run⟩ := Reader.whole_eq_ok.mp reads
  rw [← run_skipBlank] at run
  cases found : skipBlank d with
  | nil =>
    rw [found, PersistentWire.empty] at run
    cases run
  | cons c t =>
    refine ⟨c, t, found, ?_⟩
    rintro rfl
    rw [found, ListItem.not_close] at run
    cases run

theorem takesItem_of_reads [Wire α] [ListItem α] {d : List Char} {v : α}
    (reads : (Wire.reader : Reader α).whole d = .ok v) :
    (Wire.reader : Reader α).TakesItem d v where
  starts := startsItem_of_reads reads
  skip := run_skipBlank
  takes := PersistentWire.persistent.takes reads

theorem readItem_rejects [Wire α] [LawfulWire α] {d : List Char} {e : Error}
    (fails : (Wire.reader : Reader α).whole d = .error e) (closed : e.isOpen = false)
    (notClose : ¬ ClosesList d) (read : List α) {b rest : List Char} (blank : Blank b)
    (delimits : Delimits rest) :
    readItem Wire.reader read (b ++ (due read.isEmpty d ++ rest)) = .error e := by
  rw [readItem, nextItem_due blank (startsItem_of_closed fails closed notClose)]
  dsimp only
  rw [run_skipBlank, PersistentWire.persistent.fails fails closed delimits]

/-! ### All items -/

section
variable [Wire α]

/-- Every text is read on its own as the value in its place. -/
abbrev EachReads (ds : List (List Char)) (vs : List α) : Prop :=
  List.Forall₂ (fun d v => (Wire.reader : Reader α).whole d = .ok v) ds vs

variable [ListItem α]

theorem EachReads.takesItem {ds : List (List Char)} {vs : List α} (reads : EachReads ds vs) :
    List.Forall₂ (Wire.reader : Reader α).TakesItem ds vs :=
  reads.imp fun _ _ => takesItem_of_reads

theorem list_accepts {ds : List (List Char)} {vs : List α} (reads : EachReads ds vs)
    {lead gap : List Char} (blank : Blank lead) (gap_blank : Blank gap) (rest : List Char) :
    (Wire.reader : Reader (List α)).run
        (lead ++ '[' :: (separated ds ++ (gap ++ ']' :: rest))) = .ok (vs, rest) := by
  show (Reader.afterBlanks (readList Wire.reader) readList_le).run _ = _
  rw [Reader.afterBlanks_run (skipBlank_blank_cons blank (c := '[') rfl _)]
  exact readList_joined reads.takesItem gap_blank rest

/-- The first fault is the fault of the list, and nothing after it is looked at. -/
theorem list_rejects {ds : List (List Char)} {d : List Char} {e : Error}
    (earlier : ∀ d' ∈ ds, ∃ v, (Wire.reader : Reader α).whole d' = .ok v)
    (fails : (Wire.reader : Reader α).whole d = .error e) (closed : e.isOpen = false)
    (notClose : ¬ ClosesList d) {lead rest : List Char} (blank : Blank lead)
    (delimits : Delimits rest) :
    (Wire.reader : Reader (List α)).run
        (lead ++ '[' :: (separated (ds ++ [d]) ++ rest)) = .error e := by
  obtain ⟨vs, reads⟩ := exists_forall₂ earlier
  obtain ⟨b, b_blank, run⟩ := run_items_joined (EachReads.takesItem reads) [] .nil
  have ends : ds ≠ [] → Delimits (due ds.isEmpty d ++ rest) := fun some => by
    rw [List.isEmpty_eq_false_iff.mpr some]
    exact .cons rfl _
  have first : (vs.reverse ++ ([] : List α)).isEmpty = ds.isEmpty := by
    have := List.Forall₂.length_eq reads
    cases ds <;> cases vs <;> simp_all
  have rejects := readItem_rejects fails closed notClose (vs.reverse ++ []) b_blank delimits
  rw [first] at rejects
  show (Reader.afterBlanks (readList Wire.reader) readList_le).run _ = _
  rw [Reader.afterBlanks_run (skipBlank_blank_cons blank (c := '[') rfl _), readList, if_pos rfl,
    ← joined_true, joined_append, joined_singleton, List.append_assoc]
  exact (run _ ends).trans (Loop.run_error rejects)

end

end Spindle.Json
