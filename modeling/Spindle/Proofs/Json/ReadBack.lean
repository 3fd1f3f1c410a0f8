import Spindle.Proofs.Json.Compact

/-!
# A written value is read back

The text of a value, read as a document, is that value. By induction on the value, of which the
items or the members are read back one by one.
-/

namespace Spindle.Json

open Value Document

section
variable {strict : Bool}

theorem Value.takes_string (s : String) :
    (document strict).Takes (Quoted.write s.toList) (.string s) := by
  have leaf : IsLeaf strict (Quoted.write s.toList) (.string (String.ofList s.toList)) :=
    isLeaf_string (Quoted.read_write s.toList)
  rw [String.ofList_toList] at leaf
  exact leaf.takes

theorem MemberText.reads_written (depth : Nat) {m : String × Value}
    (value : (document strict).Takes (m.2.chars .compact (depth + 1)) m.2) :
    MemberText.Reads strict (Member.written Spacing.compact_blank depth m).toMemberText m where
  before := (Member.written _ depth m).before_blank
  key := Quoted.reads_write m.1.toList
  after := .nil
  value := value

theorem Value.Proper.takes {v : Value} (proper : v.Proper Literal.WellFormed) (depth : Nat) :
    (document strict).Takes (v.chars .compact depth) v := by
  induction proper generalizing depth with
  | null => exact isLeaf_null.takes
  | boolean b => exact (isLeaf_boolean b).takes
  | number wellFormed => exact (isLeaf_number wellFormed).takes
  | string s => exact takes_string s
  | @array vs _ items =>
    rw [chars_array_compact]
    refine takes_list .nil ?_
    rw [List.forall₂_map_left_iff, List.forall₂_same]
    exact fun v mem => items v mem (depth + 1)
  | @object ms _ _ values =>
    have blank := Spacing.compact_blank
    have each : List.Forall₂ (MemberText.Reads strict)
        (ms.map fun m => (Member.written blank depth m).toMemberText) ms := by
      rw [List.forall₂_map_left_iff, List.forall₂_same]
      exact fun m mem => MemberText.reads_written depth (values m mem (depth + 1))
    have object := takes_object (ObjectText.written blank depth ms).inner_blank each
    have text := chars_written blank depth ms
    rw [ObjectText.chars, ObjectText.written, List.map_map] at text
    rw [List.map_map] at object
    rw [← text]
    exact object

end

/-! ### The document of a text -/

/-- The text is the value, with its surrogate escapes in pairs, or with each of them for U+FFFD, as
there may be half a pair in what nobody asks for. -/
def IsDocument (text : String) (v : Value) : Prop :=
  ∃ strict, (document strict).whole text.toList = .ok v

theorem Value.Proper.isDocument {v : Value} (proper : v.Proper Literal.WellFormed) :
    IsDocument v.compact v := by
  refine ⟨true, ?_⟩
  rw [Value.compact, String.toList_ofList]
  exact (proper.takes 0).whole

theorem IsJson.exists_document {text : String} (json : IsJson text.toList) :
    ∃ v, IsDocument text v := by
  obtain ⟨v, takes⟩ := json.exists_takes
  exact ⟨v, false, takes.whole⟩

end Spindle.Json
