import Spindle.Proofs.Json.TokenPersistence

/-!
# Values persist

Values of any depth are read, and passed over, alike when the text goes on.
-/

namespace Spindle.Json

namespace Document

theorem extend_close (v : Value) (stack : List Frame) (rest more : List Char) :
    Leaves.extend (close v stack rest) more = close v stack (rest ++ more) := by
  unfold close
  split <;> rfl

theorem close_persists {s rest : List Char} (more : List Char) (v : Value) (stack : List Frame)
    (le : rest.length ≤ s.length) :
    Persists s more (.ok (close v stack rest)) (.ok (close v stack (rest ++ more))) := by
  rw [← extend_close]
  exact .ok (Nat.le_trans (Nat.le_of_eq (congrArg List.length (rest_close v stack rest))) le)

theorem isCut_ite (strict : Bool) :
    (if strict then Error.endOfValue else Error.invalidNumber).isCut := by
  cases strict <;> exact trivial

variable {strict : Bool} {stack : List Frame} {members : List (String × Value)}

theorem readValue_persists (c : Char) (s more : List Char) :
    Persists s more (readValue strict stack c s) (readValue strict stack c (s ++ more)) := by
  unfold readValue
  split
  · exact .ok (Nat.le_refl _)
  split
  · exact .ok (Nat.le_refl _)
  split
  · have first := Quoted.read_persists strict s more
    generalize Quoted.read strict s = x, Quoted.read strict (s ++ more) = y at first ⊢
    apply first.andThen
    · exact fun _ => rfl
    exact fun _ _ => close_persists more _ _ (Nat.le_refl _)
  split
  · have first := Literal.read_persists (isCut_ite strict) c s more
    generalize Literal.read _ (c :: s) = x, Literal.read _ (c :: (s ++ more)) = y at first ⊢
    apply first.andThen
    · exact fun _ => rfl
    exact fun _ _ => close_persists more _ _ (Nat.le_refl _)
  split
  · have first := readWord_persists ['u', 'l', 'l'] s more
    generalize readWord _ s = x, readWord _ (s ++ more) = y at first ⊢
    apply first.andThen
    · exact fun _ => rfl
    exact fun _ _ => close_persists more _ _ (Nat.le_refl _)
  split
  · have first := readWord_persists ['r', 'u', 'e'] s more
    generalize readWord _ s = x, readWord _ (s ++ more) = y at first ⊢
    apply first.andThen
    · exact fun _ => rfl
    exact fun _ _ => close_persists more _ _ (Nat.le_refl _)
  split
  · have first := readWord_persists ['a', 'l', 's', 'e'] s more
    generalize readWord _ s = x, readWord _ (s ++ more) = y at first ⊢
    apply first.andThen
    · exact fun _ => rfl
    exact fun _ _ => close_persists more _ _ (Nat.le_refl _)
  · exact .error _

theorem readColon_of_colon {s rest : List Char} (h : skipBlank s = ':' :: rest) :
    readColon s = .ok rest := by
  simp only [readColon, h]

theorem readColon_of_other {s t : List Char} {c : Char} (h : skipBlank s = c :: t) (ne : c ≠ ':') :
    readColon s = .error .expectedColon := by
  unfold readColon
  rw [h]
  split <;> simp_all

theorem readColon_persists (s more : List Char) :
    Persists s more (readColon s) (readColon (s ++ more)) := by
  refine .afterBlank (e := .endOfObject) (fun blank => by rw [readColon, blank]) rfl ?_
  intro c t found grown
  by_cases colon : c = ':'
  · rw [colon] at found grown
    rw [readColon_of_colon found, readColon_of_colon grown]
    exact .ok (Nat.le_refl _)
  · rw [readColon_of_other found colon, readColon_of_other grown colon]
    exact .error _

theorem readKey_of_other {s t : List Char} {c : Char} (h : skipBlank s = c :: t) (ne : c ≠ '"') :
    readKey strict members stack s = .error .keyNotString := by
  unfold readKey
  rw [h]
  split <;> simp_all

theorem readKey_persists (s more : List Char) :
    Persists s more (readKey strict members stack s) (readKey strict members stack (s ++ more)) := by
  refine .afterBlank (e := .endOfObject) (fun blank => by rw [readKey, blank]) rfl ?_
  intro c t found grown
  by_cases quote : c = '"'
  · rw [quote] at found grown
    simp only [readKey, found, grown]
    have key := Quoted.read_persists strict t more
    generalize Quoted.read strict t = x, Quoted.read strict (t ++ more) = y at key ⊢
    apply key.andThen
    · exact fun _ => rfl
    rintro ⟨key, t⟩ -
    have colon := readColon_persists t more
    dsimp only [Leaves.rest, Leaves.extend]
    generalize readColon t = x, readColon (t ++ more) = y at colon ⊢
    apply colon.andThen
    · exact fun _ => rfl
    exact fun _ _ => .ok (Nat.le_refl _)
  · rw [readKey_of_other found quote, readKey_of_other grown quote]
    exact .error _

theorem step_persists (state : State) (s more : List Char) :
    Persists s more (step strict state s) (step strict state (s ++ more)) := by
  cases state with
  | value stack =>
    refine .afterBlank (e := .endOfValue) (fun blank => by rw [step, blank]) rfl ?_
    intro c t found grown
    simp only [step, found, grown]
    exact readValue_persists c t more
  | list items stack =>
    refine .afterBlank (e := .endOfList) (fun blank => by rw [step, blank]) rfl ?_
    intro c t found grown
    simp only [step, found, grown]
    split
    · exact close_persists more _ _ (Nat.le_refl _)
    split
    · exact readValue_persists c t more
    split
    · exact .ok (Nat.le_refl _)
    · exact .error _
  | object members stack =>
    refine .afterBlank (e := .endOfObject) (fun blank => by rw [step, blank]) rfl ?_
    intro c t found grown
    simp only [step, found, grown]
    split
    · exact close_persists more _ _ (Nat.le_refl _)
    split
    · refine (readKey_persists (c :: t) more).narrow fun turn reads => ?_
      exact Nat.le_of_lt_succ (readKey_shorter reads)
    split
    · exact readKey_persists t more
    · exact .error _

end Document

theorem document_persistent (strict : Bool) : (document strict).Persistent :=
  (Document.loop strict).run_persists (fun _ => Document.step_persists _) _

theorem skipped_persistent : skipped.Persistent := (document_persistent false).map _

end Spindle.Json
