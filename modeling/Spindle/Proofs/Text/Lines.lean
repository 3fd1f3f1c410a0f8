import Mathlib.Algebra.Ring.Nat
import Mathlib.Data.List.Basic

/-!
# Lines of a text

A line feed ends a line. A text without line feeds keeps to the line that it is written on.
-/

namespace Spindle.Text

/-- What stands between line feeds. Behind a last line feed there is no further line. -/
def lines : List Char → List (List Char)
  | [] => []
  | c :: cs =>
    if c = '\n' then [] :: lines cs
    else
      match lines cs with
      | [] => [[c]]
      | line :: more => (c :: line) :: more

theorem lines_append {line : List Char} (noFeed : '\n' ∉ line) (rest : List Char) :
    lines (line ++ '\n' :: rest) = line :: lines rest := by
  induction line with
  | nil => exact if_pos rfl
  | cons c line ih =>
    rw [List.mem_cons, not_or] at noFeed
    rw [List.cons_append, lines, if_neg (Ne.symm noFeed.1), ih noFeed.2]

theorem length_lines (text rest : List Char) :
    (lines (text ++ '\n' :: rest)).length = text.count '\n' + 1 + (lines rest).length := by
  induction text with
  | nil =>
    rw [List.nil_append, lines, if_pos rfl, List.length_cons, List.count_nil]
    omega
  | cons c text ih =>
    rw [List.cons_append, lines]
    by_cases feed : c = '\n'
    · rw [if_pos feed, List.length_cons, ih, feed, List.count_cons_self]
      omega
    · rw [if_neg feed, List.count_cons_of_ne feed, ← ih]
      cases more : lines (text ++ '\n' :: rest) with
      | nil =>
        rw [more, List.length_nil] at ih
        omega
      | cons line more => rfl

/-! ### Texts on one line -/

def OneLine (s : String) : Prop := '\n' ∉ s.toList

instance (s : String) : Decidable (OneLine s) := inferInstanceAs (Decidable (_ ∉ _))

@[simp]
theorem oneLine_append {s t : String} : OneLine (s ++ t) ↔ OneLine s ∧ OneLine t := by
  rw [OneLine, String.toList_append, List.mem_append, not_or, OneLine, OneLine]

def lineFeeds (s : String) : Nat := s.toList.count '\n'

theorem lineFeeds_eq_zero {s : String} : lineFeeds s = 0 ↔ OneLine s := List.count_eq_zero

theorem oneLine_intercalate {separator : String} (plain : OneLine separator) {texts : List String}
    (each : ∀ s ∈ texts, OneLine s) : OneLine (separator.intercalate texts) := by
  induction texts with
  | nil => exact List.not_mem_nil
  | cons s texts ih =>
    obtain ⟨first, others⟩ := List.forall_mem_cons.mp each
    cases texts with
    | nil => rwa [String.intercalate_singleton]
    | cons t texts =>
      rw [String.intercalate_cons_cons, oneLine_append, oneLine_append]
      exact ⟨⟨first, plain⟩, ih others⟩

theorem oneLine_toString (n : Nat) : OneLine (toString n) := by
  intro feed
  have digit := Nat.isDigit_of_mem_toDigits (by decide) (by decide)
    (Nat.toList_repr ▸ feed : '\n' ∈ Nat.toDigits 10 n)
  cases digit

/-! ### Texts written line by line -/

theorem toList_join_lines (s : String) (texts : List String) :
    (String.join ((s :: texts).map (· ++ "\n"))).toList =
      s.toList ++ '\n' :: (String.join (texts.map (· ++ "\n"))).toList := by
  rw [List.map_cons, String.join_cons, String.toList_append, String.toList_append,
    List.append_assoc]
  rfl

theorem lines_join {texts : List String} (each : ∀ s ∈ texts, OneLine s) :
    lines (String.join (texts.map (· ++ "\n"))).toList = texts.map String.toList := by
  induction texts with
  | nil => rfl
  | cons s texts ih =>
    obtain ⟨first, others⟩ := List.forall_mem_cons.mp each
    rw [toList_join_lines, lines_append first, ih others, List.map_cons]

theorem length_lines_join (texts : List String) :
    (lines (String.join (texts.map (· ++ "\n"))).toList).length =
      texts.length + (texts.map lineFeeds).sum := by
  induction texts with
  | nil => rfl
  | cons s texts ih =>
    rw [toList_join_lines, length_lines, ih, List.length_cons, List.map_cons, List.sum_cons,
      lineFeeds]
    omega

end Spindle.Text
