import Spindle.Proofs.Json.Tokens

/-!
# Tokens that are read are of the grammar

The converse of `Tokens`: a word, number or string that is read has the form that the grammar gives
it, and what follows it has not been touched.
-/

namespace Spindle.Json

theorem readWord_eq_ok {word s rest : List Char} :
    readWord word s = .ok rest ↔ s = word ++ rest := by
  constructor
  · intro reads
    induction word generalizing s with
    | nil =>
      rw [readWord] at reads
      exact Except.ok.inj reads
    | cons w word ih =>
      cases s with
      | nil => cases reads
      | cons c s =>
        rw [readWord] at reads
        split at reads
        · rename_i same
          rw [same, ih reads, List.cons_append]
        · cases reads
  · rintro rfl
    exact readWord_append word rest

/-! ### Numbers -/

namespace Literal

variable {e : Error} {s rest digits : List Char}

theorem readDigits_form (reads : readDigits e s = .ok (digits, rest)) :
    IsDigits digits ∧ s = digits ++ rest := by
  obtain ⟨some, rfl, rfl⟩ := readDigits_eq_ok.mp reads
  exact ⟨⟨some, fun _ => List.mem_takeWhile_imp⟩, List.takeWhile_append_dropWhile.symm⟩

theorem readFraction_form {fraction : Option (List Char)}
    (reads : readFraction e s = .ok (fraction, rest)) :
    (∀ digits ∈ fraction, IsDigits digits) ∧ s = fractionChars fraction ++ rest := by
  obtain ⟨-, rfl, rfl⟩ | ⟨t, digits, rfl, read, rfl⟩ := readFraction_eq_ok.mp reads
  · exact ⟨nofun, rfl⟩
  · obtain ⟨isDigits, rfl⟩ := readDigits_form read
    exact ⟨fun _ same => Option.some.inj same ▸ isDigits, rfl⟩

theorem readSign_form (s : List Char) :
    (∀ c ∈ (readSign s).1, c = '+' ∨ c = '-') ∧ s = (readSign s).1.toList ++ (readSign s).2 := by
  unfold readSign
  split
  · exact ⟨fun c same => .inl (Option.some.inj same).symm, rfl⟩
  · exact ⟨fun c same => .inr (Option.some.inj same).symm, rfl⟩
  · exact ⟨by simp, rfl⟩

theorem readExponent_form {exponent : Option Exponent}
    (reads : readExponent e s = .ok (exponent, rest)) :
    (∀ x ∈ exponent, IsExponent x) ∧ s = exponentChars exponent ++ rest := by
  obtain ⟨-, rfl, rfl⟩ | ⟨c, t, digits, rfl, mark, read, rfl⟩ := readExponent_eq_ok.mp reads
  · exact ⟨nofun, rfl⟩
  · obtain ⟨isSign, signed⟩ := readSign_form t
    obtain ⟨isDigits, text⟩ := readDigits_form read
    refine ⟨fun _ same => Option.some.inj same ▸ ⟨mark, isSign, isDigits⟩, ?_⟩
    rw [exponentChars_some, ← text, ← signed]

theorem readMagnitude_form {negative : Bool} {l : Literal}
    (reads : readMagnitude e negative s = .ok (l, rest)) :
    l.WellFormed ∧ l.negative = negative ∧
      s = l.whole ++ (fractionChars l.fraction ++ (exponentChars l.exponent ++ rest)) := by
  obtain ⟨sign, t, u, whole, fraction, exponent⟩ := readMagnitude_eq_ok.mp reads
  obtain ⟨first, lead⟩ := readWhole_eq_ok.mp whole
  obtain ⟨isWhole, rfl⟩ := readDigits_form first
  obtain ⟨isFraction, rfl⟩ := readFraction_form fraction
  obtain ⟨isExponent, rfl⟩ := readExponent_form exponent
  exact ⟨⟨isWhole, lead, isFraction, isExponent⟩, sign, rfl⟩

/-- What is read as a literal is the text of that literal. -/
theorem read_form {l : Literal} (reads : read e s = .ok (l, rest)) :
    l.WellFormed ∧ s = l.chars ++ rest := by
  rw [chars_append]
  obtain ⟨-, magnitude⟩ | ⟨t, rfl, magnitude⟩ := read_eq_ok.mp reads
  · obtain ⟨wellFormed, negative, text⟩ := readMagnitude_form magnitude
    exact ⟨wellFormed, by rw [negative, text]; rfl⟩
  · obtain ⟨wellFormed, negative, text⟩ := readMagnitude_form magnitude
    exact ⟨wellFormed, by rw [negative, text]; rfl⟩

end Literal

/-! ### Strings -/

namespace Quoted

variable {strict : Bool} {s rest : List Char} {c : Char}

theorem isHexDigit_of_hexValue? {c : Char} (value : (hexValue? c).isSome) : IsHexDigit c := by
  have small : c.toNat < 128 := by
    have size := utf8Size_of_hexValue? value
    rw [Char.utf8Size_eq_one_iff] at size
    exact Nat.lt_succ_of_le size
  have all : ∀ n < 128, (hexValue? (Char.ofNat n)).isSome →
      Char.ofNat n ∈ "0123456789abcdefABCDEF".toList := by decide
  have found := all c.toNat small
  rw [Char.ofNat_toNat] at found
  exact found value

theorem mem_shortEscapes {c : Char} (known : (ofShortEscape? c).isSome) : c ∈ shortEscapes := by
  unfold ofShortEscape? at known
  split at known
  all_goals first | decide | cases known

namespace FourDigits

variable {h : List Char} {n : Nat}

theorem length (digits : FourDigits h n) : h.length = 4 := by
  cases digits
  rfl

theorem isHexDigit (digits : FourDigits h n) : ∀ c ∈ h, IsHexDigit c := by
  obtain ⟨first, second, third, fourth⟩ := digits
  intro c mem
  apply isHexDigit_of_hexValue?
  simp only [List.mem_cons, List.not_mem_nil, or_false] at mem
  obtain rfl | rfl | rfl | rfl := mem
  · rw [first]; rfl
  · rw [second]; rfl
  · rw [third]; rfl
  · rw [fourth]; rfl

theorem body (digits : FourDigits h n) {s : List Char} (others : IsBody s) :
    IsBody ('\\' :: 'u' :: (h ++ s)) := .unit digits.length digits.isHexDigit others

end FourDigits

theorem Escape.body {u : List Char} (escape : Escape strict u c) (others : IsBody s) :
    IsBody ('\\' :: (u ++ s)) := by
  cases escape with
  | short known => exact .short (mem_shortEscapes (by rw [known]; rfl)) others
  | unit digits => exact digits.body others
  | half _ digits => exact digits.body others
  | pair _ first _ second =>
    -- the two halves of a pair are two escapes of the grammar
    rw [List.cons_append, List.append_assoc]
    exact first.body (second.body others)

theorem Reads.body {cs : List Char} (reads : Reads strict s cs) : IsBody s := by
  induction reads with
  | nil => exact .nil
  | plain printable notQuote notBackslash _ ih =>
    exact .plain printable notQuote notBackslash ih
  | escape escape _ ih => exact escape.body ih

/-- A string that is read has a body of the grammar, and is read alike before any other text. -/
theorem read_form {cs : List Char} (reads : Quoted.read strict s = .ok (cs, rest)) :
    ∃ body, IsBody body ∧ s = body ++ '"' :: rest ∧
      ∀ more, Quoted.read strict (body ++ '"' :: more) = .ok (cs, more) := by
  obtain ⟨body, read, rfl⟩ := read_eq_ok.mp reads
  exact ⟨body, read.body, rfl, fun more => read_eq_ok.mpr ⟨body, read, rfl⟩⟩

end Quoted

end Spindle.Json
