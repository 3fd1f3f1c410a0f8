import Spindle.Proofs.Json.TokenGrammar

/-!
# Spellings of a text

The same JSON text can be written in many ways: blanks may stand between its tokens or not, and a
character of a string may stand for itself or be escaped. Here is when one text is another spelling
of a text, without reference to a reader, and what a reader of tokens makes of the two.
-/

namespace Spindle.Json

namespace Quoted

/-! ### Characters of a string -/

/-- The letters that stand for a character after a backslash. -/
def shortForms : List (Char × Char) :=
  [('"', '"'), ('\\', '\\'), ('/', '/'), ('b', '\x08'), ('f', '\x0c'), ('n', '\n'), ('r', '\r'),
    ('t', '\t')]

/-- A hexadecimal digit, in either case. -/
def IsDigitOf (n : Nat) (c : Char) : Prop :=
  n < 16 ∧ (c = Nat.digitChar n ∨ c = (Nat.digitChar n).toUpper)

/-- The escape of a code unit: a backslash, a `u` and four digits. -/
inductive IsUnit : Nat → List Char → Prop where
  | digits {n₁ n₂ n₃ n₄ : Nat} {c₁ c₂ c₃ c₄ : Char} (first : IsDigitOf n₁ c₁)
      (second : IsDigitOf n₂ c₂) (third : IsDigitOf n₃ c₃) (fourth : IsDigitOf n₄ c₄) :
      IsUnit (((n₁ * 16 + n₂) * 16 + n₃) * 16 + n₄) ['\\', 'u', c₁, c₂, c₃, c₄]

/-- The ways to write a character between quotes. -/
inductive Spells (c : Char) : List Char → Prop where
  | plain (printable : 0x20 ≤ c.toNat) (notQuote : c ≠ '"') (notBackslash : c ≠ '\\') :
      Spells c [c]
  | short {letter : Char} (listed : (letter, c) ∈ shortForms) : Spells c ['\\', letter]
  | unit {u : List Char} (unit : IsUnit c.toNat u) : Spells c u
  /-- A character beyond U+FFFF as two surrogates. -/
  | pair {u v : List Char} (beyond : 0x10000 ≤ c.toNat)
      (high : IsUnit (0xD800 + (c.toNat - 0x10000) / 0x400) u)
      (low : IsUnit (0xDC00 + (c.toNat - 0x10000) % 0x400) v) : Spells c (u ++ v)

/-- Two ways to write a string, character by character. Half of a surrogate pair on its own is no
character, but its digits may change their case. -/
inductive SameBody : List Char → List Char → Prop where
  | nil : SameBody [] []
  | char {c : Char} {u u' s s' : List Char} (before : Spells c u) (after : Spells c u')
      (others : SameBody s s') : SameBody (u ++ s) (u' ++ s')
  | half {n : Nat} {u u' s s' : List Char} (surrogate : 0xD800 ≤ n ∧ n ≤ 0xDFFF)
      (before : IsUnit n u) (after : IsUnit n u') (others : SameBody s s') :
      SameBody (u ++ s) (u' ++ s')

theorem SameBody.append {s s' t t' : List Char} (first : SameBody s s') (second : SameBody t t') :
    SameBody (s ++ t) (s' ++ t') := by
  induction first with
  | nil => exact second
  | char before after _ ih =>
    rw [List.append_assoc, List.append_assoc]
    exact .char before after ih
  | half surrogate before after _ ih =>
    rw [List.append_assoc, List.append_assoc]
    exact .half surrogate before after ih

theorem SameBody.plain {s : List Char}
    (plain : (s.all fun c => 0x20 ≤ c.toNat ∧ c ≠ '"' ∧ c ≠ '\\') = true) : SameBody s s := by
  induction s with
  | nil => exact .nil
  | cons c s ih =>
    obtain ⟨first, others⟩ := Bool.and_eq_true_iff.mp (List.all_cons ▸ plain)
    obtain ⟨printable, notQuote, notBackslash⟩ := of_decide_eq_true first
    have spells : Spells c [c] := .plain printable notQuote notBackslash
    exact .char spells spells (ih others)

end Quoted

/-! ### Texts -/

def isMark (c : Char) : Bool :=
  c = '[' || c = ']' || c = '\x7b' || c = '\x7d' || c = ':' || c = ','

/-- A character of a number or of `null`, `true` and `false`, which nothing but blanks, marks and
strings keeps apart. -/
def inWord (c : Char) : Bool := !isBlank c && !isMark c && c ≠ '"'

/-- A text that does not go on with a word. -/
def EndsWord (s : List Char) : Prop := ∀ c ∈ s.head?, inWord c = false

/-- The second text has the tokens of the first, with other blanks between them and with
characters of its strings written in another way. -/
inductive Respelled : List Char → List Char → Prop where
  | nil : Respelled [] []
  | removed {b : Char} {s s' : List Char} (blank : isBlank b = true) (others : Respelled s s') :
      Respelled (b :: s) s'
  | inserted {b : Char} {s s' : List Char} (blank : isBlank b = true) (others : Respelled s s') :
      Respelled s (b :: s')
  | mark {c : Char} {s s' : List Char} (mark : isMark c = true) (others : Respelled s s') :
      Respelled (c :: s) (c :: s')
  | word {w s s' : List Char} (some : w ≠ []) (word : ∀ c ∈ w, inWord c = true) (ends : EndsWord s)
      (ends' : EndsWord s') (others : Respelled s s') : Respelled (w ++ s) (w ++ s')
  | string {u u' s s' : List Char} (body : Quoted.SameBody u u') (others : Respelled s s') :
      Respelled ('"' :: (u ++ '"' :: s)) ('"' :: (u' ++ '"' :: s'))

/-- Two texts that are spellings of one another after a character that both start with. -/
inductive Begins : Char → List Char → List Char → Prop where
  | mark {c : Char} {s s' : List Char} (mark : isMark c = true) (others : Respelled s s') :
      Begins c s s'
  | word {c : Char} {w s s' : List Char} (first : inWord c = true)
      (word : ∀ d ∈ w, inWord d = true) (ends : EndsWord s) (ends' : EndsWord s')
      (others : Respelled s s') : Begins c (w ++ s) (w ++ s')
  | string {u u' s s' : List Char} (body : Quoted.SameBody u u') (others : Respelled s s') :
      Begins '"' (u ++ '"' :: s) (u' ++ '"' :: s')

theorem isBlank_eq_false_of_isMark {c : Char} (mark : isMark c = true) : isBlank c = false := by
  simp only [isMark, Bool.or_eq_true, decide_eq_true_eq] at mark
  obtain ((((rfl | rfl) | rfl) | rfl) | rfl) | rfl := mark <;> rfl

theorem isBlank_eq_false_of_inWord {c : Char} (word : inWord c = true) : isBlank c = false := by
  simp only [inWord, Bool.and_eq_true, Bool.not_eq_true'] at word
  exact word.1.1

theorem isMark_eq_false_of_inWord {c : Char} (word : inWord c = true) : isMark c = false := by
  simp only [inWord, Bool.and_eq_true, Bool.not_eq_true'] at word
  exact word.1.2

theorem inWord_of_continuesNumber {c : Char} (continues : continuesNumber c = true) :
    inWord c = true := by
  cases word : inWord c with
  | true => rfl
  | false =>
    simp only [inWord, Bool.and_eq_false_iff, Bool.not_eq_false', decide_eq_false_iff_not,
      not_not] at word
    obtain (blank | mark) | rfl := word
    · rw [continuesNumber_of_isBlank blank] at continues
      cases continues
    · simp only [isMark, Bool.or_eq_true, decide_eq_true_eq] at mark
      obtain ((((rfl | rfl) | rfl) | rfl) | rfl) | rfl := mark <;> cases continues
    · cases continues

theorem inWord_of_startsNumber {c : Char} (starts : startsNumber c = true) : inWord c = true := by
  apply inWord_of_continuesNumber
  simp only [startsNumber, Bool.or_eq_true, decide_eq_true_eq] at starts
  obtain rfl | digit := starts
  · rfl
  · simp [continuesNumber, digit]

theorem EndsWord.nil : EndsWord [] := nofun

theorem EndsWord.cons {c : Char} (ends : inWord c = false) (s : List Char) : EndsWord (c :: s) := by
  intro d first
  obtain rfl := Option.some.inj first
  exact ends

theorem EndsWord.delimits {s : List Char} (ends : EndsWord s) : Delimits s := by
  intro c first
  cases continues : continuesNumber c with
  | false => rfl
  | true =>
    have word := inWord_of_continuesNumber continues
    rw [ends c first] at word
    cases word

namespace Begins

variable {c : Char} {t t' : List Char}

theorem respelled (begins : Begins c t t') : Respelled (c :: t) (c :: t') := by
  cases begins with
  | mark mark others => exact .mark mark others
  | @word _ w _ _ first word ends ends' others =>
    have all : ∀ d ∈ c :: w, inWord d = true := List.forall_mem_cons.mpr ⟨first, word⟩
    exact .word (List.cons_ne_nil c w) all ends ends' others
  | string body others => exact .string body others

theorem of_mark (begins : Begins c t t') (mark : isMark c = true) : Respelled t t' := by
  cases begins with
  | mark _ others => exact others
  | word first =>
    rw [isMark_eq_false_of_inWord first] at mark
    cases mark
  | string => cases mark

theorem of_word (begins : Begins c t t') (first : inWord c = true) :
    ∃ w s s', t = w ++ s ∧ t' = w ++ s' ∧ (∀ d ∈ w, inWord d = true) ∧ EndsWord s ∧ EndsWord s' ∧
      Respelled s s' := by
  cases begins with
  | mark mark =>
    rw [isMark_eq_false_of_inWord first] at mark
    cases mark
  | word _ word ends ends' others => exact ⟨_, _, _, rfl, rfl, word, ends, ends', others⟩
  | string => cases first

theorem of_quote (begins : Begins '"' t t') :
    ∃ u u' s s', t = u ++ '"' :: s ∧ t' = u' ++ '"' :: s' ∧ Quoted.SameBody u u' ∧
      Respelled s s' := by
  generalize quote : '"' = c at begins
  cases begins with
  | mark mark =>
    subst quote
    cases mark
  | word first =>
    subst quote
    cases first
  | string body others => exact ⟨_, _, _, _, rfl, rfl, body, others⟩

end Begins

namespace Respelled

variable {s s' : List Char}

/-- Behind their blanks, both texts are at their end or start with the same character. -/
theorem skipBlank (respelled : Respelled s s') :
    skipBlank s = [] ∧ skipBlank s' = [] ∨
      ∃ c t t', Json.skipBlank s = c :: t ∧ Json.skipBlank s' = c :: t' ∧ Begins c t t' := by
  induction respelled with
  | nil => exact .inl ⟨rfl, rfl⟩
  | removed blank _ ih =>
    rwa [Json.skipBlank, List.dropWhile_cons_of_pos blank]
  | inserted blank _ ih =>
    rwa [Json.skipBlank, Json.skipBlank, List.dropWhile_cons_of_pos blank] at *
  | mark mark others =>
    have notBlank := isBlank_eq_false_of_isMark mark
    exact .inr ⟨_, _, _, skipBlank_cons notBlank _, skipBlank_cons notBlank _, .mark mark others⟩
  | @word w s s' some word ends ends' others =>
    obtain ⟨c, w, rfl⟩ := List.exists_cons_of_ne_nil some
    obtain ⟨first, word⟩ := List.forall_mem_cons.mp word
    have notBlank := isBlank_eq_false_of_inWord first
    exact .inr ⟨_, _, _, skipBlank_cons notBlank _, skipBlank_cons notBlank _,
      .word first word ends ends' others⟩
  | string body others =>
    exact .inr ⟨_, _, _, skipBlank_cons rfl _, skipBlank_cons rfl _, .string body others⟩

theorem skipBlank_cons (respelled : Respelled s s') {c : Char} {t : List Char}
    (found : Json.skipBlank s = c :: t) : ∃ t', Json.skipBlank s' = c :: t' ∧ Begins c t t' := by
  obtain ⟨empty, -⟩ | ⟨d, u, u', start, start', begins⟩ := respelled.skipBlank
  · rw [empty] at found
    cases found
  · rw [start] at found
    cases found
    exact ⟨u', start', begins⟩

theorem skipBlank_nil (respelled : Respelled s s') (blank : Json.skipBlank s = []) :
    Json.skipBlank s' = [] := by
  obtain ⟨-, empty⟩ | ⟨c, t, t', start, -⟩ := respelled.skipBlank
  · exact empty
  · rw [start] at blank
    cases blank

/-- Blanks in front make no difference. -/
theorem skipped (respelled : Respelled s s') :
    Respelled (Json.skipBlank s) (Json.skipBlank s') := by
  obtain ⟨empty, empty'⟩ | ⟨c, t, t', start, start', begins⟩ := respelled.skipBlank
  · rw [empty, empty']
    exact .nil
  · rw [start, start']
    exact begins.respelled

/-- What is left of a word after some of it has been read. -/
theorem of_word {w : List Char} (word : ∀ c ∈ w, inWord c = true) (ends : EndsWord s)
    (ends' : EndsWord s') (others : Respelled s s') : Respelled (w ++ s) (w ++ s') := by
  cases w with
  | nil => exact others
  | cons c w => exact .word (List.cons_ne_nil c w) word ends ends' others

end Respelled

end Spindle.Json
