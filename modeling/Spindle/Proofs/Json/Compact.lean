import Spindle.Proofs.Json.RecordExact
import Spindle.Proofs.Json.Spelling

/-!
# Written values

The text of a value is of the grammar, and other blanks between its tokens make another spelling of
it.
-/

namespace Spindle.Json

namespace Value

/-- No object has a key twice, and the numbers are of one kind. -/
inductive Proper (good : Literal → Prop) : Value → Prop where
  | null : Proper good .null
  | boolean (b : Bool) : Proper good (.boolean b)
  | number {l : Literal} (number : good l) : Proper good (.number l)
  | string (s : String) : Proper good (.string s)
  | array {vs : List Value} (items : ∀ v ∈ vs, Proper good v) : Proper good (.array vs)
  | object {ms : List (String × Value)} (distinct : (ms.map Prod.fst).Nodup)
      (values : ∀ m ∈ ms, Proper good m.2) : Proper good (.object ms)

theorem Proper.imp {good good' : Literal → Prop} (h : ∀ l, good l → good' l) {v : Value}
    (proper : v.Proper good) : v.Proper good' := by
  induction proper with
  | null => exact .null
  | boolean b => exact .boolean b
  | number number => exact .number (h _ number)
  | string s => exact .string s
  | array _ items => exact .array items
  | object distinct _ values => exact .object distinct values

/-! ### Compact texts -/

theorem chars_array_compact (depth : Nat) (vs : List Value) :
    (Value.array vs).chars .compact depth =
      '[' :: (separated (vs.map (chars .compact (depth + 1))) ++ [']']) := by
  rw [chars_array, show Spacing.compact.line depth = [] from rfl, ite_self]
  rfl

/-- The text of a value is of the grammar. -/
theorem Proper.isJson {v : Value} (proper : v.Proper Literal.WellFormed) (depth : Nat) :
    IsJson (v.chars .compact depth) := by
  induction proper generalizing depth with
  | null => exact .null
  | boolean b => exact .boolean b
  | number wellFormed => exact .number wellFormed
  | string s =>
    exact Reader.Exact.isJson ExactWire.exact (LawfulWire.reads_back Spacing.compact_blank depth s)
  | array _ json =>
    rw [chars_array_compact]
    refine isJson_list (fun t mem => ?_) .nil fun _ => rfl
    obtain ⟨v, listed, rfl⟩ := List.mem_map.mp mem
    exact json v listed (depth + 1)
  | @object ms _ _ json =>
    have blank := Spacing.compact_blank
    have inner : (ObjectText.written blank depth ms).inner = [] := ite_self _
    have written := chars_written blank depth ms
    rw [ObjectText.chars, inner] at written
    rw [← written]
    refine isJson_object (fun m mem => ?_) .nil fun _ => rfl
    obtain ⟨m, listed, rfl⟩ := List.mem_map.mp mem
    exact json m listed (depth + 1)

/-- Only null starts as `null` does. -/
theorem Proper.head_ne {v : Value} (proper : v.Proper Literal.WellFormed) (notNull : v ≠ .null)
    (depth : Nat) : ∃ c s, v.chars .compact depth = c :: s ∧ isBlank c = false ∧ c ≠ 'n' := by
  cases proper with
  | null => exact (notNull rfl).elim
  | boolean b => cases b <;> exact ⟨_, _, rfl, rfl, by decide⟩
  | number wellFormed =>
    obtain ⟨c, s, text, starts⟩ := wellFormed.startsNumber
    refine ⟨c, s, text, isBlank_of_startsNumber starts, ?_⟩
    rintro rfl
    cases starts
  | string s => exact ⟨_, _, rfl, rfl, by decide⟩
  | @array vs => exact ⟨_, _, chars_array_compact depth vs, rfl, by decide⟩
  | @object ms =>
    obtain ⟨s, text⟩ := object_chars .compact depth ms
    exact ⟨_, s, text, rfl, by decide⟩

end Value

/-! ### Other spellings -/

namespace Quoted

theorem spells_writeChar (c : Char) : Spells c (writeChar c) := by
  unfold writeChar
  cases short : shortEscape? c with
  | some letter =>
    refine .short ?_
    unfold shortEscape? at short
    split at short <;> cases short <;> simp [shortForms]
  | none =>
    dsimp only
    split
    · rename_i control
      have unit : IsUnit (((0 * 16 + 0) * 16 + c.toNat / 16) * 16 + c.toNat % 16)
          ['\\', 'u', '0', '0', Nat.digitChar (c.toNat / 16), Nat.digitChar (c.toNat % 16)] :=
        .digits ⟨by decide, .inl rfl⟩ ⟨by decide, .inl rfl⟩ ⟨by omega, .inl rfl⟩
          ⟨by omega, .inl rfl⟩
      have value : ((0 * 16 + 0) * 16 + c.toNat / 16) * 16 + c.toNat % 16 = c.toNat := by omega
      rw [value] at unit
      exact .unit unit
    · refine .plain (by omega) ?_ ?_
      all_goals
        rintro rfl
        cases short

theorem sameBody_write (s : List Char) : SameBody (s.flatMap writeChar) (s.flatMap writeChar) := by
  induction s with
  | nil => exact .nil
  | cons c s ih => exact .char (spells_writeChar c) (spells_writeChar c) ih

end Quoted

namespace Respelled

variable {t t' : List Char} (others : Respelled t t')
include others

theorem blanks {b b' : List Char} (blank : Blank b) (blank' : Blank b') :
    Respelled (b ++ t) (b' ++ t') := by
  have removed : Respelled (b ++ t) t' := by
    induction b with
    | nil => exact others
    | cons c b ih =>
      obtain ⟨first, blank⟩ := List.forall_mem_cons.mp blank
      exact .removed first (ih blank)
  clear blank
  induction b' with
  | nil => exact removed
  | cons c b' ih =>
    obtain ⟨first, blank'⟩ := List.forall_mem_cons.mp blank'
    exact .inserted first (ih blank')

theorem write (s : List Char) : Respelled (Quoted.write s ++ t) (Quoted.write s ++ t') := by
  have respelled := Respelled.string (Quoted.sameBody_write s) others
  rwa [Quoted.write, List.cons_append, List.cons_append, List.append_assoc, List.append_assoc]

end Respelled

theorem EndsWord.blank_append {b s : List Char} (blank : Blank b) (ends : EndsWord s) :
    EndsWord (b ++ s) := by
  cases b with
  | nil => exact ends
  | cons c b =>
    have first := blank c List.mem_cons_self
    exact .cons (by simp [inWord, first]) _

theorem inWord_of_isDigits {s : List Char} (digits : Literal.IsDigits s) :
    ∀ c ∈ s, inWord c = true := fun c mem =>
  inWord_of_continuesNumber (by simp [continuesNumber, digits.2 c mem])

theorem Literal.WellFormed.inWord {l : Literal} (wellFormed : l.WellFormed) :
    ∀ c ∈ l.chars, inWord c = true := by
  intro c mem
  simp only [Literal.chars, List.mem_append] at mem
  obtain ((sign | whole) | fraction) | exponent := mem
  · obtain rfl : c = '-' := by split at sign <;> simp_all
    rfl
  · exact inWord_of_isDigits wellFormed.whole c whole
  · cases digits : l.fraction with
    | none => simp [digits] at fraction
    | some ds =>
      rw [digits] at fraction
      obtain rfl | mem := List.mem_cons.mp fraction
      · rfl
      · exact inWord_of_isDigits (wellFormed.fraction ds digits) c mem
  · cases power : l.exponent with
    | none => simp [power] at exponent
    | some e =>
      have isExponent := wellFormed.exponent e power
      rw [power] at exponent
      obtain rfl | mem := List.mem_cons.mp exponent
      · obtain mark | mark := isExponent.mark <;> rw [mark] <;> rfl
      · obtain sign | digit := List.mem_append.mp mem
        · obtain rfl | rfl := isExponent.sign c (Option.mem_toList.mp sign) <;> rfl
        · exact inWord_of_isDigits isExponent.digits c digit

namespace Value

theorem endsWord_itemChars {sp : Spacing} (blank : sp.Blank) (depth : Nat) (vs : List Value)
    (t : List Char) : EndsWord (itemChars sp depth vs ++ t) := by
  cases vs with
  | nil =>
    rw [itemChars, List.append_assoc]
    exact .blank_append (blank.line depth) (.cons rfl t)
  | cons v vs =>
    rw [itemChars]
    exact .cons rfl _

theorem endsWord_memberChars {sp : Spacing} (blank : sp.Blank) (depth : Nat)
    (ms : List (String × Value)) (t : List Char) : EndsWord (memberChars sp depth ms ++ t) := by
  cases ms with
  | nil =>
    rw [memberChars, List.append_assoc]
    exact .blank_append (blank.line depth) (.cons rfl t)
  | cons m ms =>
    rw [memberChars]
    exact .cons rfl _

/-- Whatever follows them, two texts of the value are spellings of one another. -/
def SpelledAlike (sp sp' : Spacing) (v : Value) : Prop :=
  ∀ depth depth' t t', EndsWord t → EndsWord t' → Respelled t t' →
    Respelled (v.chars sp depth ++ t) (v.chars sp' depth' ++ t')

section
variable {sp sp' : Spacing} (blank : sp.Blank) (blank' : sp'.Blank)
include blank blank'

theorem respelled_items {vs : List Value} (alike : ∀ v ∈ vs, SpelledAlike sp sp' v)
    (depth depth' : Nat) {t t' : List Char} (others : Respelled t t') :
    Respelled (itemChars sp depth vs ++ t) (itemChars sp' depth' vs ++ t') := by
  induction vs with
  | nil =>
    rw [itemChars, itemChars, List.append_assoc, List.append_assoc]
    exact .blanks (.mark rfl others) (blank.line depth) (blank'.line depth')
  | cons v vs ih =>
    obtain ⟨first, alike⟩ := List.forall_mem_cons.mp alike
    have value := first (depth + 1) (depth' + 1) _ _ (endsWord_itemChars blank depth vs t)
      (endsWord_itemChars blank' depth' vs t') (ih alike)
    have item := value.blanks (blank.line (depth + 1)) (blank'.line (depth' + 1))
    rw [itemChars, itemChars]
    simpa using Respelled.mark (c := ',') rfl item

/-- The text of a member behind a mark. -/
theorem respelled_member (key : String) {v : Value} (alike : SpelledAlike sp sp' v)
    (depth depth' : Nat) {t t' : List Char} (ends : EndsWord t) (ends' : EndsWord t')
    (others : Respelled t t') :
    Respelled
      (sp.line (depth + 1) ++ (Quoted.write key.toList ++ ':' :: (sp.colon ++
        (v.chars sp (depth + 1) ++ t))))
      (sp'.line (depth' + 1) ++ (Quoted.write key.toList ++ ':' :: (sp'.colon ++
        (v.chars sp' (depth' + 1) ++ t')))) := by
  have value := alike (depth + 1) (depth' + 1) t t' ends ends' others
  have colon := Respelled.mark (c := ':') rfl (value.blanks blank.colon blank'.colon)
  exact (colon.write key.toList).blanks (blank.line (depth + 1)) (blank'.line (depth' + 1))

theorem respelled_members {ms : List (String × Value)} (alike : ∀ m ∈ ms, SpelledAlike sp sp' m.2)
    (depth depth' : Nat) {t t' : List Char} (others : Respelled t t') :
    Respelled (memberChars sp depth ms ++ t) (memberChars sp' depth' ms ++ t') := by
  induction ms with
  | nil =>
    rw [memberChars, memberChars, List.append_assoc, List.append_assoc]
    exact .blanks (.mark rfl others) (blank.line depth) (blank'.line depth')
  | cons m ms ih =>
    obtain ⟨first, alike⟩ := List.forall_mem_cons.mp alike
    have member := respelled_member blank blank' m.1 first depth depth'
      (endsWord_memberChars blank depth ms t) (endsWord_memberChars blank' depth' ms t') (ih alike)
    rw [memberChars, memberChars]
    simpa using Respelled.mark (c := ',') rfl member

theorem Proper.spelledAlike {v : Value} (proper : v.Proper Literal.WellFormed) :
    SpelledAlike sp sp' v := by
  induction proper with
  | null =>
    intro depth depth' t t' ends ends' others
    exact .word (w := ['n', 'u', 'l', 'l']) (by decide) (List.all_eq_true.mp rfl) ends ends' others
  | boolean b =>
    intro depth depth' t t' ends ends' others
    exact .word (w := booleanChars b) (by cases b <;> decide)
      (by cases b <;> exact List.all_eq_true.mp rfl) ends ends' others
  | number wellFormed =>
    intro depth depth' t t' ends ends' others
    obtain ⟨c, s, text, -⟩ := wellFormed.startsNumber
    exact .word (w := Literal.chars _) (text ▸ List.cons_ne_nil c s) wellFormed.inWord ends ends'
      others
  | string s => exact fun _ _ _ _ _ _ others => others.write s.toList
  | @array vs _ alike =>
    intro depth depth' t t' _ _ others
    cases vs with
    | nil => exact .mark (c := '[') rfl (.mark (c := ']') rfl others)
    | cons v vs =>
      obtain ⟨first, alike⟩ := List.forall_mem_cons.mp alike
      have value := first (depth + 1) (depth' + 1) _ _ (endsWord_itemChars blank depth vs t)
        (endsWord_itemChars blank' depth' vs t')
        (respelled_items blank blank' alike depth depth' others)
      have item := value.blanks (blank.line (depth + 1)) (blank'.line (depth' + 1))
      rw [chars, chars]
      simpa using Respelled.mark (c := '[') rfl item
  | @object ms _ _ alike =>
    intro depth depth' t t' _ _ others
    cases ms with
    | nil => exact .mark (c := '\x7b') rfl (.mark (c := '\x7d') rfl others)
    | cons m ms =>
      obtain ⟨first, alike⟩ := List.forall_mem_cons.mp alike
      have member := respelled_member blank blank' m.1 first depth depth'
        (endsWord_memberChars blank depth ms t) (endsWord_memberChars blank' depth' ms t')
        (respelled_members blank blank' alike depth depth' others)
      rw [chars, chars]
      simpa using Respelled.mark (c := '\x7b') rfl member

end

/-- The two ways to lay a value out are spellings of one another. -/
theorem Proper.respelled_pretty {v : Value} (proper : v.Proper Literal.WellFormed) :
    Respelled v.compact.toList v.pretty.toList := by
  have alike := proper.spelledAlike Spacing.compact_blank Spacing.pretty_blank
  simpa [compact, pretty] using alike 0 0 [] [] .nil .nil .nil

end Value

end Spindle.Json
