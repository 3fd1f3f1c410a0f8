import Spindle.Proofs.Json.Spelling

/-!
# Tokens in another spelling

A string that is read strictly has the same characters in every spelling, and a string that is
passed over is passed over in every spelling. Of numbers and words nothing changes but what follows.
-/

namespace Spindle.Json

/-! ### Strings -/

namespace Quoted

theorem IsDigitOf.hexValue? {n : Nat} {c : Char} (digit : IsDigitOf n c) :
    Quoted.hexValue? c = some n := by
  have all : ∀ n < 16, Quoted.hexValue? (Nat.digitChar n) = some n ∧
      Quoted.hexValue? (Nat.digitChar n).toUpper = some n := by decide
  obtain ⟨small, rfl | rfl⟩ := digit
  · exact (all n small).1
  · exact (all n small).2

theorem ofShortEscape?_of_shortForms {letter c : Char} (listed : (letter, c) ∈ shortForms) :
    letter ≠ 'u' ∧ ofShortEscape? letter = some c := by
  have all : shortForms.all (fun form => form.1 ≠ 'u' ∧ ofShortEscape? form.1 = some form.2) =
      true := by decide
  exact of_decide_eq_true (List.all_eq_true.mp all _ listed)

namespace IsUnit

variable {n : Nat} {u : List Char}

theorem form (unit : IsUnit n u) : ∃ h, u = '\\' :: 'u' :: h ∧ FourDigits h n := by
  obtain ⟨first, second, third, fourth⟩ := unit
  exact ⟨_, rfl, .mk first.hexValue? second.hexValue? third.hexValue? fourth.hexValue?⟩

theorem body (unit : IsUnit n u) {t : List Char} (others : IsBody t) : IsBody (u ++ t) := by
  obtain ⟨h, rfl, digits⟩ := unit.form
  exact digits.body others

end IsUnit

theorem run_escape (strict : Bool) (taken s : List Char) :
    (chars strict).run taken ('\\' :: s) =
      match readEscape strict s with
      | .error e => .error e
      | .ok (c, rest) => (chars strict).run (c :: taken) rest := by
  have step : (chars strict).step taken ('\\' :: s) = readChar strict taken ('\\' :: s) := rfl
  rw [Loop.run_eq, step, readChar]
  cases readEscape strict s <;> rfl

/-- The run after the first half of a pair. -/
def runPair (high : Nat) (taken s : List Char) : Except Error (List Char × List Char) :=
  match Quoted.readLowHalf high s with
  | .error e => .error e
  | .ok (c, rest) => (chars true).run (c :: taken) rest

theorem IsUnit.run {n : Nat} {u : List Char} (unit : IsUnit n u) (taken rest : List Char) :
    (chars true).run taken (u ++ rest) =
      if isLowSurrogate n then .error .loneSurrogate
      else if isHighSurrogate n then runPair n taken rest
      else (chars true).run (Char.ofNat n :: taken) rest := by
  obtain ⟨h, rfl, digits⟩ := unit.form
  show (chars true).run taken ('\\' :: 'u' :: (h ++ rest)) = _
  rw [run_escape]
  simp only [readEscape, readUnit, digits.readHex]
  cases isLowSurrogate n with
  | true => rfl
  | false =>
    cases isHighSurrogate n with
    | true => rfl
    | false => rfl

theorem IsUnit.runPair {n : Nat} {u : List Char} (unit : IsUnit n u) (high : Nat)
    (taken rest : List Char) :
    Quoted.runPair high taken (u ++ rest) =
      if isLowSurrogate n then (chars true).run (ofPair high n :: taken) rest
      else .error .loneSurrogate := by
  obtain ⟨h, rfl, digits⟩ := unit.form
  show Quoted.runPair high taken ('\\' :: 'u' :: (h ++ rest)) = _
  simp only [Quoted.runPair, readLowHalf, digits.readHex]
  cases isLowSurrogate n with
  | true => rfl
  | false => rfl

namespace Spells

variable {c : Char} {u : List Char}

theorem body (spells : Spells c u) {t : List Char} (others : IsBody t) : IsBody (u ++ t) := by
  cases spells with
  | plain printable notQuote notBackslash => exact .plain printable notQuote notBackslash others
  | @short letter listed =>
    obtain ⟨-, known⟩ := ofShortEscape?_of_shortForms listed
    exact .short (mem_shortEscapes (by rw [known]; rfl)) others
  | unit unit => exact unit.body others
  | pair _ high low =>
    rw [List.append_assoc]
    exact high.body (low.body others)

theorem toNat_valid (c : Char) : c.toNat < 0xD800 ∨ 0xDFFF < c.toNat ∧ c.toNat < 0x110000 := c.valid

theorem not_surrogate (c : Char) :
    isLowSurrogate c.toNat = false ∧ isHighSurrogate c.toNat = false := by
  have valid := toNat_valid c
  simp only [isLowSurrogate, isHighSurrogate, Bool.and_eq_false_iff, decide_eq_false_iff_not]
  omega

/-- However a character is written, it is read. -/
theorem run (spells : Spells c u) (taken rest : List Char) :
    (chars true).run taken (u ++ rest) = (chars true).run (c :: taken) rest := by
  cases spells with
  | plain printable notQuote notBackslash =>
    exact Loop.run_again (readChar_eq_ok.mpr
      (.inr (.inr ⟨c, rest, printable, notQuote, notBackslash, rfl, rfl⟩)))
  | @short letter listed =>
    obtain ⟨notUnit, known⟩ := ofShortEscape?_of_shortForms listed
    show (chars true).run taken ('\\' :: letter :: rest) = _
    rw [run_escape, readEscape_of_head notUnit, known]
  | unit unit =>
    obtain ⟨notLow, notHigh⟩ := not_surrogate c
    rw [unit.run, notLow, notHigh, Char.ofNat_toNat]
    rfl
  | pair beyond high low =>
    have valid := toNat_valid c
    have isHigh : isHighSurrogate (0xD800 + (c.toNat - 0x10000) / 0x400) = true := by
      simp only [isHighSurrogate, Bool.and_eq_true, decide_eq_true_eq]
      omega
    have notLow : isLowSurrogate (0xD800 + (c.toNat - 0x10000) / 0x400) = false := by
      simp only [isLowSurrogate, Bool.and_eq_false_iff, decide_eq_false_iff_not]
      omega
    have isLow : isLowSurrogate (0xDC00 + (c.toNat - 0x10000) % 0x400) = true := by
      simp only [isLowSurrogate, Bool.and_eq_true, decide_eq_true_eq]
      omega
    have both : ofPair (0xD800 + (c.toNat - 0x10000) / 0x400)
        (0xDC00 + (c.toNat - 0x10000) % 0x400) = c := by
      rw [ofPair, Nat.add_sub_cancel_left, Nat.add_sub_cancel_left, Nat.div_add_mod',
        Nat.sub_add_cancel beyond, Char.ofNat_toNat]
    rw [List.append_assoc, high.run, notLow, isHigh, if_neg Bool.false_ne_true,
      if_pos rfl, low.runPair, isLow, if_pos rfl, both]

/-- A character is not the second half of a pair. -/
theorem runPair (spells : Spells c u) (high : Nat) (taken rest : List Char) :
    ∃ e, Quoted.runPair high taken (u ++ rest) = .error e := by
  cases spells with
  | plain _ _ notBackslash =>
    refine ⟨.unfinishedPair, ?_⟩
    show Quoted.runPair high taken (c :: rest) = _
    rw [Quoted.runPair, readLowHalf_of_head notBackslash]
  | @short letter listed =>
    refine ⟨.unfinishedPair, ?_⟩
    show Quoted.runPair high taken ('\\' :: letter :: rest) = _
    rw [Quoted.runPair, readLowHalf_of_second (ofShortEscape?_of_shortForms listed).1]
  | unit unit =>
    rw [unit.runPair, (not_surrogate c).1]
    exact ⟨_, rfl⟩
  | pair beyond first low =>
    have valid := toNat_valid c
    have notLow : isLowSurrogate (0xD800 + (c.toNat - 0x10000) / 0x400) = false := by
      simp only [isLowSurrogate, Bool.and_eq_false_iff, decide_eq_false_iff_not]
      omega
    rw [List.append_assoc, first.runPair, notLow]
    exact ⟨_, rfl⟩

end Spells

namespace SameBody

variable {s s' : List Char}

theorem bodies (same : SameBody s s') : IsBody s ∧ IsBody s' := by
  induction same with
  | nil => exact ⟨.nil, .nil⟩
  | char before after _ ih => exact ⟨before.body ih.1, after.body ih.2⟩
  | half _ before after _ ih => exact ⟨before.body ih.1, after.body ih.2⟩

/-- A string that is read strictly is read alike when its characters are written in another way,
also from the middle of a pair on. -/
theorem runs (same : SameBody s s') (t t' : List Char) {cs rest : List Char} (taken : List Char) :
    ((chars true).run taken (s ++ '"' :: t) = .ok (cs, rest) →
      rest = t ∧ (chars true).run taken (s' ++ '"' :: t') = .ok (cs, t')) ∧
    ∀ high, runPair high taken (s ++ '"' :: t) = .ok (cs, rest) →
      rest = t ∧ runPair high taken (s' ++ '"' :: t') = .ok (cs, t') := by
  induction same generalizing taken with
  | nil =>
    have done (t : List Char) : (chars true).run taken ('"' :: t) = .ok (taken.reverse, t) :=
      Loop.run_done rfl
    refine ⟨fun reads => ?_, fun high reads => ?_⟩
    · rw [List.nil_append, done] at reads
      cases reads
      exact ⟨rfl, done t'⟩
    · cases reads
  | char before after others ih =>
    simp only [List.append_assoc, before.run, after.run]
    refine ⟨(ih _).1, fun high reads => ?_⟩
    obtain ⟨e, fails⟩ := before.runPair high taken _
    rw [fails] at reads
    cases reads
  | half surrogate before after others ih =>
    simp only [List.append_assoc, before.run, after.run, before.runPair, after.runPair]
    refine ⟨fun reads => ?_, fun high reads => ?_⟩
    · split at reads
      · cases reads
      · rename_i notLow
        rw [if_neg notLow]
        split at reads
        · rename_i isHigh
          rw [if_pos isHigh]
          exact (ih _).2 _ reads
        · rename_i notHigh
          rw [if_neg notHigh]
          exact (ih _).1 reads
    · split at reads
      · rename_i isLow
        rw [if_pos isLow]
        exact (ih _).1 reads
      · cases reads

theorem read (same : SameBody s s') {t cs rest : List Char}
    (reads : Quoted.read true (s ++ '"' :: t) = .ok (cs, rest)) (t' : List Char) :
    rest = t ∧ Quoted.read true (s' ++ '"' :: t') = .ok (cs, t') := (same.runs t t' []).1 reads

end SameBody

end Quoted

/-! ### Words -/

theorem inWord_isSuffix {w v : List Char} (word : ∀ c ∈ w, inWord c = true) (suffix : v <:+ w) :
    ∀ c ∈ v, inWord c = true := fun c mem => word c (suffix.subset mem)

/-- What is made of characters of a word does not reach beyond it. -/
theorem prefix_of_inWord {w x s rest : List Char} (chars : ∀ c ∈ x, inWord c = true)
    (ends : EndsWord s) (text : w ++ s = x ++ rest) : ∃ v, v <:+ w ∧ w = x ++ v ∧ rest = v ++ s := by
  obtain ⟨v, rfl, rfl⟩ | ⟨v, rfl, rfl⟩ := List.append_eq_append_iff.mp text
  · cases v with
    | nil => exact ⟨[], List.nil_suffix, by simp, rfl⟩
    | cons c v =>
      have word := chars c (by simp)
      rw [ends c rfl] at word
      cases word
  · exact ⟨v, List.suffix_append x v, rfl, rfl⟩

theorem readWord_respelled {x w s s' rest : List Char} (chars : ∀ c ∈ x, inWord c = true)
    (ends : EndsWord s) (reads : readWord x (w ++ s) = .ok rest) :
    ∃ v, v <:+ w ∧ rest = v ++ s ∧ readWord x (w ++ s') = .ok (v ++ s') := by
  obtain ⟨v, suffix, rfl, rfl⟩ := prefix_of_inWord chars ends (readWord_eq_ok.mp reads)
  exact ⟨v, suffix, rfl, readWord_eq_ok.mpr (List.append_assoc x v s')⟩

/-! ### Numbers -/

namespace Literal

/-- What `x` reads of the word `w` in front of `s`, `y` reads of it in front of `s'`. -/
def ReadsOf (w s s' : List Char) (x y : Except Error (β × List Char)) : Prop :=
  ∀ {v : β} {rest : List Char}, x = .ok (v, rest) →
    ∃ u, u <:+ w ∧ rest = u ++ s ∧ y = .ok (v, u ++ s')

section
variable {e : Error} {s s' : List Char} (delimits : Delimits s) (delimits' : Delimits s')
include delimits delimits'

theorem readDigits_respelled (w : List Char) :
    ReadsOf w s s' (readDigits e (w ++ s)) (readDigits e (w ++ s')) := by
  intro digits rest reads
  have before := digits_append w s fun _ => delimits
  have after := digits_append w s' fun _ => delimits'
  obtain ⟨some, taken, rfl⟩ := readDigits_eq_ok.mp reads
  rw [before.1] at taken
  exact ⟨_, List.dropWhile_suffix _, before.2,
    readDigits_eq_ok.mpr ⟨some, after.1.trans taken, after.2⟩⟩

theorem readWhole_respelled (w : List Char) :
    ReadsOf w s s' (readWhole e (w ++ s)) (readWhole e (w ++ s')) := by
  intro digits rest reads
  obtain ⟨first, lead⟩ := readWhole_eq_ok.mp reads
  obtain ⟨u, suffix, rfl, first'⟩ := readDigits_respelled delimits delimits' w first
  exact ⟨u, suffix, rfl, readWhole_eq_ok.mpr ⟨first', lead⟩⟩

theorem readFraction_respelled (w : List Char) :
    ReadsOf w s s' (readFraction e (w ++ s)) (readFraction e (w ++ s')) := by
  intro fraction rest reads
  obtain ⟨noPoint, rfl, rfl⟩ | ⟨t, digits, text, read, rfl⟩ := readFraction_eq_ok.mp reads
  · have point : (w ++ s').head? ≠ some '.' := by
      cases w with
      | nil => exact fun first => nomatch delimits' '.' first
      | cons c w => exact noPoint
    exact ⟨w, List.suffix_rfl, rfl, readFraction_eq_ok.mpr (.inl ⟨point, rfl, rfl⟩)⟩
  · cases w with
    | nil => cases delimits '.' (by rw [← List.nil_append s, text]; rfl)
    | cons c w =>
      obtain ⟨rfl, rfl⟩ := List.cons.inj text
      obtain ⟨u, suffix, rfl, read'⟩ := readDigits_respelled delimits delimits' w read
      exact ⟨u, suffix.trans (List.suffix_cons _ _), rfl,
        readFraction_eq_ok.mpr (.inr ⟨w ++ s', digits, rfl, read', rfl⟩)⟩

theorem readExponent_respelled (w : List Char) :
    ReadsOf w s s' (readExponent e (w ++ s)) (readExponent e (w ++ s')) := by
  intro exponent rest reads
  obtain ⟨noMark, rfl, rfl⟩ | ⟨c, t, digits, text, mark, read, rfl⟩ := readExponent_eq_ok.mp reads
  · have noMark' : ∀ c ∈ (w ++ s').head?, ¬ (c = 'e' ∨ c = 'E') := by
      cases w with
      | nil => exact delimits'.notMark
      | cons c w => exact noMark
    exact ⟨w, List.suffix_rfl, rfl, readExponent_eq_ok.mpr (.inl ⟨noMark', rfl, rfl⟩)⟩
  · cases w with
    | nil =>
      rw [List.nil_append] at text
      exact absurd mark (delimits.notMark c (by rw [text]; rfl))
    | cons d w =>
      rw [List.cons_append] at text
      obtain ⟨rfl, rfl⟩ := List.cons.inj text
      -- a sign belongs to the word, too
      obtain ⟨v, suffix, sign⟩ : ∃ v, v <:+ w ∧ ∀ t, Delimits t →
          readSign (w ++ t) = ((readSign w).1, v ++ t) := by
        cases w with
        | nil => exact ⟨[], List.suffix_rfl, fun t delimits => readSign_of_delimits delimits⟩
        | cons d w =>
          obtain ⟨-, text⟩ := readSign_form (d :: w)
          exact ⟨_, ⟨_, text.symm⟩, fun t _ => readSign_cons_append d w t⟩
      rw [sign s delimits] at read
      obtain ⟨u, suffix', rfl, read'⟩ := readDigits_respelled delimits delimits' v read
      refine ⟨u, (suffix'.trans suffix).trans (List.suffix_cons _ _), rfl,
        readExponent_eq_ok.mpr (.inr ⟨d, w ++ s', digits, rfl, mark, ?_, ?_⟩)⟩
      · rw [sign s' delimits', read']
      · rw [sign s delimits, sign s' delimits']

theorem readMagnitude_respelled (negative : Bool) (w : List Char) :
    ReadsOf w s s' (readMagnitude e negative (w ++ s)) (readMagnitude e negative (w ++ s')) := by
  intro l rest reads
  obtain ⟨sign, t, u, whole, fraction, exponent⟩ := readMagnitude_eq_ok.mp reads
  obtain ⟨t, suffix, rfl, whole'⟩ := readWhole_respelled delimits delimits' w whole
  obtain ⟨u, suffix', rfl, fraction'⟩ := readFraction_respelled delimits delimits' t fraction
  obtain ⟨v, suffix'', rfl, exponent'⟩ := readExponent_respelled delimits delimits' u exponent
  exact ⟨v, (suffix''.trans suffix').trans suffix, rfl,
    readMagnitude_eq_ok.mpr ⟨sign, _, _, whole', fraction', exponent'⟩⟩

theorem read_respelled (c : Char) (w : List Char) :
    ReadsOf w s s' (read e (c :: (w ++ s))) (read e (c :: (w ++ s'))) := by
  intro l rest reads
  by_cases minus : c = '-'
  · subst minus
    exact readMagnitude_respelled delimits delimits' true w reads
  · have noSign (t : List Char) : (c :: t).head? ≠ some '-' := by simpa using minus
    have shorter := read_shorter reads
    rw [read_of_head (noSign _)] at reads ⊢
    obtain ⟨u, suffix, rfl, reads'⟩ :=
      readMagnitude_respelled delimits delimits' false (c :: w) reads
    refine ⟨u, ?_, rfl, reads'⟩
    obtain rfl | suffix := List.suffix_cons_iff.mp suffix
    · -- something of the text has been read
      simp at shorter
    · exact suffix

end

end Literal

end Spindle.Json
