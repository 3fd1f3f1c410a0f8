import Spindle.Proofs.Json.Persistence

/-!
# Tokens persist

Words, number literals and strings are read alike when the text goes on.
-/

namespace Spindle.Json

/-! ### Numbers -/

/-- What a reader of numbers reports where the text ends inside one. -/
def Error.isCut : Error → Prop
  | endOfValue | invalidNumber => True
  | _ => False

theorem head_isDigit {more : List Char} (delimits : Delimits more) :
    more.takeWhile Char.isDigit = [] := by
  cases more with
  | nil => rfl
  | cons c more =>
    have := delimits c rfl
    simp only [continuesNumber, Bool.or_eq_false_iff] at this
    simp [this]

theorem Delimits.notMark {more : List Char} (delimits : Delimits more) :
    ∀ c ∈ more.head?, ¬ (c = 'e' ∨ c = 'E') := by
  rintro c first (rfl | rfl)
  · cases delimits 'e' first
  · cases delimits 'E' first

theorem dropWhile_of_takeWhile {p : α → Bool} {s : List α} (h : s.takeWhile p = []) :
    s.dropWhile p = s := by
  have := List.takeWhile_append_dropWhile (p := p) (l := s)
  rwa [h] at this

theorem digits_append (s more : List Char)
    (atEnd : s.dropWhile Char.isDigit = [] → Delimits more) :
    (s ++ more).takeWhile Char.isDigit = s.takeWhile Char.isDigit ∧
      (s ++ more).dropWhile Char.isDigit = s.dropWhile Char.isDigit ++ more := by
  have whole := List.takeWhile_append_dropWhile (p := Char.isDigit) (l := s)
  rw [List.takeWhile_append, List.dropWhile_append]
  cases left : s.dropWhile Char.isDigit with
  | nil =>
    rw [left, List.append_nil] at whole
    have none := head_isDigit (atEnd left)
    rw [whole, if_pos rfl, none, dropWhile_of_takeWhile none]
    simp
  | cons c t =>
    have shorter : (s.takeWhile Char.isDigit).length ≠ s.length := by
      have := congrArg List.length whole
      rw [left, List.length_append, List.length_cons] at this
      omega
    rw [if_neg shorter]
    simp

namespace Literal

variable {e : Error}

theorem readDigits_persists (cut : e.isCut) (s more : List Char) :
    Persists s more (readDigits e s) (readDigits e (s ++ more)) := by
  unfold readDigits
  by_cases none : s.takeWhile Char.isDigit = []
  · rw [if_pos none]
    intro closed delimits
    have same := digits_append s more fun _ => delimits
    rw [same.1, if_pos none]
    cases s with
    | nil =>
      cases e with
      | endOfValue => cases closed
      | invalidNumber => simp
      | _ => exact cut.elim
    | cons c s => simp
  · rw [if_neg none]
    refine ⟨(List.dropWhile_suffix _).length_le, fun delimits => ?_⟩
    have same := digits_append s more delimits
    rw [same.1, same.2, if_neg none]
    rfl

theorem readWhole_persists (cut : e.isCut) (s more : List Char) :
    Persists s more (readWhole e s) (readWhole e (s ++ more)) := by
  unfold readWhole
  have first := readDigits_persists cut s more
  generalize readDigits e s = x, readDigits e (s ++ more) = y at first ⊢
  apply first.andThen
  · exact fun _ => rfl
  rintro ⟨digits, rest⟩ -
  dsimp only [Leaves.rest, Leaves.extend]
  split
  · exact .error _
  · exact .ok (Nat.le_refl _)

theorem readFraction_of_head {s : List Char} (h : s.head? ≠ some '.') :
    readFraction e s = .ok (none, s) :=
  readFraction_eq_ok.mpr (.inl ⟨h, rfl, rfl⟩)

theorem head?_append_ne {s more : List Char} {c : Char} (h : s.head? ≠ some c)
    (continues : continuesNumber c = true) (delimits : s = [] → Delimits more) :
    (s ++ more).head? ≠ some c := by
  cases s with
  | nil =>
    intro found
    rw [delimits rfl c found] at continues
    cases continues
  | cons d s => exact h

theorem readFraction_persists (cut : e.isCut) (s more : List Char) :
    Persists s more (readFraction e s) (readFraction e (s ++ more)) := by
  by_cases point : s.head? = some '.'
  · obtain ⟨s, rfl⟩ := List.head?_eq_some_iff.mp point
    rw [List.cons_append, readFraction, readFraction]
    have first := readDigits_persists cut s more
    generalize readDigits e s = x, readDigits e (s ++ more) = y at first ⊢
    refine Persists.mono ?_ (Nat.le_succ s.length)
    apply first.andThen
    · exact fun _ => rfl
    exact fun _ _ => .ok (Nat.le_refl _)
  · rw [readFraction_of_head point]
    refine ⟨Nat.le_refl _, fun delimits => ?_⟩
    rw [readFraction_of_head (head?_append_ne point rfl delimits)]
    rfl

theorem readSign_of_delimits {more : List Char} (delimits : Delimits more) :
    readSign more = (none, more) := by
  unfold readSign
  split
  · cases delimits '+' rfl
  · cases delimits '-' rfl
  · rfl

theorem readSign_cons_append (c : Char) (s more : List Char) :
    readSign (c :: s ++ more) = ((readSign (c :: s)).1, (readSign (c :: s)).2 ++ more) := by
  unfold readSign
  split <;> split <;> simp_all

theorem readExponent_persists (cut : e.isCut) (s more : List Char) :
    Persists s more (readExponent e s) (readExponent e (s ++ more)) := by
  match s with
  | [] =>
    exact ⟨Nat.le_refl _, fun delimits =>
      readExponent_eq_ok.mpr (.inl ⟨(delimits rfl).notMark, rfl, rfl⟩)⟩
  | [c] =>
    rw [List.cons_append, readExponent, readExponent]
    split
    · -- the mark is the last character, so what is added could be a sign
      intro closed delimits
      rw [List.nil_append, readSign_of_delimits delimits]
      have first := readDigits_persists cut [] more closed delimits
      rw [List.nil_append] at first
      rw [first]
      rfl
    · exact .ok (Nat.le_refl _)
  | c :: d :: s =>
    rw [List.cons_append, readExponent, readExponent]
    split
    · rw [readSign_cons_append]
      have first := readDigits_persists cut (readSign (d :: s)).2 more
      generalize readDigits e (readSign (d :: s)).2 = x,
        readDigits e ((readSign (d :: s)).2 ++ more) = y at first ⊢
      refine Persists.mono ?_ (Nat.le_succ_of_le (length_readSign_le (d :: s)))
      apply first.andThen
      · exact fun _ => rfl
      exact fun _ _ => .ok (Nat.le_refl _)
    · exact .ok (Nat.le_refl _)

theorem readMagnitude_persists (cut : e.isCut) (negative : Bool) (s more : List Char) :
    Persists s more (readMagnitude e negative s) (readMagnitude e negative (s ++ more)) := by
  unfold readMagnitude
  have first := readWhole_persists cut s more
  generalize readWhole e s = x, readWhole e (s ++ more) = y at first ⊢
  apply first.andThen
  · exact fun _ => rfl
  rintro ⟨whole, s⟩ -
  dsimp only [Leaves.rest, Leaves.extend]
  have second := readFraction_persists cut s more
  generalize readFraction e s = x, readFraction e (s ++ more) = y at second ⊢
  apply second.andThen
  · exact fun _ => rfl
  rintro ⟨fraction, s⟩ -
  dsimp only [Leaves.rest, Leaves.extend]
  have third := readExponent_persists cut s more
  generalize readExponent e s = x, readExponent e (s ++ more) = y at third ⊢
  apply third.andThen
  · exact fun _ => rfl
  exact fun _ _ => .ok (Nat.le_refl _)

theorem read_of_head {s : List Char} (h : s.head? ≠ some '-') :
    read e s = readMagnitude e false s := by
  unfold read
  split
  · cases h rfl
  · rfl

theorem read_persists (cut : e.isCut) (c : Char) (s more : List Char) :
    Persists s more (read e (c :: s)) (read e (c :: (s ++ more))) := by
  have whole : Persists (c :: s) more (read e (c :: s)) (read e (c :: (s ++ more))) := by
    by_cases minus : c = '-'
    · rw [minus]
      exact (readMagnitude_persists cut true s more).mono (Nat.le_succ s.length)
    · have noSign (t : List Char) : (c :: t).head? ≠ some '-' := by simpa using minus
      rw [read_of_head (noSign _), read_of_head (noSign _)]
      exact readMagnitude_persists cut false (c :: s) more
  exact whole.narrow fun _ reads => Nat.le_of_lt_succ (read_shorter reads)

end Literal

/-! ### Words -/

theorem readWord_persists (word s more : List Char) :
    Persists s more (readWord word s) (readWord word (s ++ more)) := by
  induction word generalizing s with
  | nil => exact .ok (Nat.le_refl _)
  | cons w word ih =>
    cases s with
    | nil => exact .opened rfl
    | cons c s =>
      rw [List.cons_append, readWord, readWord]
      split
      · exact (ih s).mono (Nat.le_succ s.length)
      · exact .error _

/-! ### Strings -/

namespace Quoted

theorem utf8Size_of_hexValue? {c : Char} (h : (hexValue? c).isSome) : c.utf8Size = 1 := by
  have small : c ≤ 'f' := by
    unfold hexValue? at h
    split at h
    · rename_i digit
      exact Char.le_trans digit.2 (by decide)
    · split at h
      · rename_i lower
        exact lower.2
      · split at h
        · rename_i upper
          exact Char.le_trans upper.2 (by decide)
        · cases h
  rw [Char.utf8Size_eq_one_iff]
  exact UInt32.le_trans small (by decide)

theorem utf8ByteSize_cons (c : Char) (s : List Char) :
    (String.ofList (c :: s)).utf8ByteSize = c.utf8Size + (String.ofList s).utf8ByteSize := by
  rw [← List.singleton_append, String.ofList_append, String.utf8ByteSize_append,
    ← String.utf8ByteSize_singleton]
  rfl

theorem utf8ByteSize_of_hex {s : List Char} (h : ∀ c ∈ s, (hexValue? c).isSome) :
    (String.ofList s).utf8ByteSize = s.length := by
  induction s with
  | nil => rfl
  | cons c s ih =>
    rw [utf8ByteSize_cons, utf8Size_of_hexValue? (h c List.mem_cons_self),
      ih fun d member => h d (List.mem_cons_of_mem _ member), List.length_cons, Nat.add_comm]

/-- Four bytes, not all of them hexadecimal digits. -/
theorem readHex_of_wide {s : List Char} (wide : ∃ c ∈ s.take 4, (hexValue? c).isNone)
    (bytes : 4 ≤ (String.ofList s).utf8ByteSize) : readHex s = .error .invalidEscape := by
  unfold readHex
  split
  · split
    · simp_all
    · rfl
  · rw [if_neg (by omega)]

theorem readHex_of_short {s : List Char} (short : s.length < 4) :
    readHex s =
      .error (if (String.ofList s).utf8ByteSize < 4 then .endOfString else .invalidEscape) := by
  match s with
  | [] | [_] | [_, _] | [_, _, _] => rfl
  | _ :: _ :: _ :: _ :: _ =>
    simp only [List.length_cons] at short
    omega

theorem readHex_persists (s more : List Char) :
    Persists s more (readHex s) (readHex (s ++ more)) := by
  by_cases short : s.length < 4
  · rw [readHex_of_short short]
    split
    · exact .opened rfl
    · rename_i bytes
      intro _ _
      by_cases hex : ∀ c ∈ s, (hexValue? c).isSome
      · rw [utf8ByteSize_of_hex hex] at bytes
        exact absurd short bytes
      · simp only [Classical.not_forall] at hex
        obtain ⟨c, member, other⟩ := hex
        refine readHex_of_wide ⟨c, ?_, by simpa using other⟩ ?_
        · rw [List.take_append, List.take_of_length_le (Nat.le_of_lt short)]
          exact List.mem_append_left _ member
        · rw [String.ofList_append, String.utf8ByteSize_append]
          omega
  · match s with
    | a :: b :: c :: d :: rest =>
      simp only [List.cons_append, readHex]
      split
      · refine .ok ?_
        simp only [Leaves.rest, List.length_cons]
        omega
      · exact .error _
    | [] | [_] | [_, _] | [_, _, _] => exact absurd (by simp) short

theorem readLowHalf_of_head {high : Nat} {c : Char} {s : List Char} (h : c ≠ '\\') :
    readLowHalf high (c :: s) = .error .unfinishedPair := by
  unfold readLowHalf
  split <;> simp_all

theorem readLowHalf_of_second {high : Nat} {c : Char} {s : List Char} (h : c ≠ 'u') :
    readLowHalf high ('\\' :: c :: s) = .error .unfinishedPair := by
  unfold readLowHalf
  split <;> simp_all

theorem readLowHalf_persists (high : Nat) (s more : List Char) :
    Persists s more (readLowHalf high s) (readLowHalf high (s ++ more)) := by
  match s with
  | [] => exact .opened rfl
  | [c] =>
    by_cases backslash : c = '\\'
    · rw [backslash]
      exact .opened rfl
    · rw [List.cons_append, readLowHalf_of_head backslash, readLowHalf_of_head backslash]
      exact .error _
  | c :: d :: s =>
    rw [List.cons_append, List.cons_append]
    by_cases backslash : c = '\\'
    · by_cases unit : d = 'u'
      · rw [backslash, unit, readLowHalf, readLowHalf]
        have first := readHex_persists s more
        generalize readHex s = x, readHex (s ++ more) = y at first ⊢
        refine Persists.mono ?_ (Nat.le_add_right s.length 2)
        apply first.andThen
        · exact fun _ => rfl
        rintro ⟨low, rest⟩ -
        dsimp only [Leaves.rest, Leaves.extend]
        split
        · exact .value (Nat.le_refl _)
        · exact .error _
      · rw [backslash, readLowHalf_of_second unit, readLowHalf_of_second unit]
        exact .error _
    · rw [readLowHalf_of_head backslash, readLowHalf_of_head backslash]
      exact .error _

theorem readUnit_persists (strict : Bool) (s more : List Char) :
    Persists s more (readUnit strict s) (readUnit strict (s ++ more)) := by
  unfold readUnit
  have first := readHex_persists s more
  generalize readHex s = x, readHex (s ++ more) = y at first ⊢
  apply first.andThen
  · exact fun _ => rfl
  rintro ⟨n, rest⟩ -
  dsimp only [Leaves.rest, Leaves.extend]
  split
  · split
    · exact .error _
    · exact .value (Nat.le_refl _)
  · split
    · split
      · exact readLowHalf_persists n rest more
      · exact .value (Nat.le_refl _)
    · exact .value (Nat.le_refl _)

theorem readEscape_persists (strict : Bool) (s more : List Char) :
    Persists s more (readEscape strict s) (readEscape strict (s ++ more)) := by
  cases s with
  | nil => exact .opened rfl
  | cons c s =>
    rw [List.cons_append]
    by_cases unit : c = 'u'
    · rw [unit]
      exact (readUnit_persists strict s more).mono (Nat.le_succ s.length)
    · rw [readEscape_of_head unit, readEscape_of_head unit]
      split
      · exact .error _
      · exact .value (Nat.le_succ s.length)

theorem readChar_persists (strict : Bool) (chars s more : List Char) :
    Persists s more (readChar strict chars s) (readChar strict chars (s ++ more)) := by
  cases s with
  | nil => exact .opened rfl
  | cons c s =>
    rw [List.cons_append]
    by_cases quote : c = '"'
    · rw [quote]
      exact .ok (Nat.le_succ s.length)
    · by_cases backslash : c = '\\'
      · rw [backslash, readChar, readChar]
        have first := readEscape_persists strict s more
        generalize readEscape strict s = x, readEscape strict (s ++ more) = y at first ⊢
        refine Persists.mono ?_ (Nat.le_succ s.length)
        apply first.andThen
        · exact fun _ => rfl
        exact fun _ _ => .ok (Nat.le_refl _)
      · rw [readChar, readChar]
        · split
          · exact .error _
          · exact .ok (Nat.le_succ s.length)
        all_goals assumption

theorem read_persists (strict : Bool) (s more : List Char) :
    Persists s more (read strict s) (read strict (s ++ more)) :=
  (chars strict).run_persists (readChar_persists strict) [] s more

end Quoted

end Spindle.Json
