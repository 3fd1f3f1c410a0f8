import Spindle.Proofs.Json.Documents
import Spindle.Proofs.Json.ListItems
import Spindle.Proofs.Json.Skipping
import Spindle.Proofs.Json.TokenGrammar

/-!
# Only JSON is passed over

The converse of `Skipping`: what the reader passes over is a JSON value. Lists and objects are taken
apart item by item and member by member; the values in them are shorter than the whole.
-/

namespace Spindle.Json

/-! ### Blanks -/

theorem IsJson.before {b s : List Char} (blank : Blank b) (json : IsJson s) : IsJson (b ++ s) := by
  have padded := IsJson.padded blank json .nil
  rwa [List.append_nil] at padded

theorem IsJson.after {b s : List Char} (json : IsJson s) (blank : Blank b) : IsJson (s ++ b) :=
  .padded .nil json blank

theorem IsJson.pad {b s e : List Char} (json : IsJson s) (before : Blank b) (after : Blank e) :
    IsJson (b ++ s ++ e) := by
  rw [List.append_assoc]
  exact .padded before json after

theorem IsJson.ne_nil {t : List Char} (json : IsJson t) : t ≠ [] := by
  obtain ⟨c, u, found, -⟩ := json.startsItem
  rintro rfl
  cases found

/-- The blanks behind the bracket belong to the first item, if there is one. -/
theorem IsJson.list_blank {b : List Char} {ts : List (List Char)} (blank : Blank b)
    (json : ∀ t ∈ ts, IsJson t) : IsJson ('[' :: (b ++ (joined true ts ++ [']']))) := by
  cases ts with
  | nil => exact .emptyList blank
  | cons t ts =>
    obtain ⟨first, others⟩ := List.forall_mem_cons.mp json
    have list := IsJson.list (List.cons_ne_nil (b ++ t) ts)
      (List.forall_mem_cons.mpr ⟨first.before blank, others⟩)
    simpa [joined, due, separated] using list

theorem IsJson.object_blank {b : List Char} {ms : List MemberText} (blank : Blank b)
    (wellFormed : ∀ m ∈ ms, m.WellFormed) (json : ∀ m ∈ ms, IsJson m.value) :
    IsJson ('\x7b' :: (b ++ (joined true (ms.map MemberText.chars) ++ ['\x7d']))) := by
  cases ms with
  | nil => exact .emptyObject blank
  | cons m ms =>
    obtain ⟨first, others⟩ := List.forall_mem_cons.mp wellFormed
    let padded : MemberText := { m with before := b ++ m.before }
    have padded_wellFormed : padded.WellFormed :=
      ⟨blank.append first.before, first.body, first.after⟩
    have object := IsJson.object (List.cons_ne_nil padded ms)
      (List.forall_mem_cons.mpr ⟨padded_wellFormed, others⟩)
      (List.forall_mem_cons.mpr (List.forall_mem_cons.mp json))
    simpa [joined, due, separated, MemberText.chars, padded] using object

/-! ### What is taken off the front -/

theorem nextItem_split {first : Bool} {s t : List Char} (next : nextItem first s = .ok (.item t)) :
    ∃ b gap, Blank b ∧ Blank gap ∧ s = b ++ due first (gap ++ t) := by
  obtain ⟨c, u, rfl, -, found⟩ := nextItem_eq_item.mp next
  cases first with
  | true =>
    obtain ⟨b, blank, text, -⟩ := skipBlank_form (show skipBlank s = c :: u from found)
    exact ⟨b, [], blank, .nil, text⟩
  | false =>
    obtain ⟨s', comma, found⟩ := show ∃ s', skipBlank s = ',' :: s' ∧ skipBlank s' = c :: u from found
    obtain ⟨b, blank, text, -⟩ := skipBlank_form comma
    obtain ⟨gap, gap_blank, text', -⟩ := skipBlank_form found
    exact ⟨b, gap, blank, gap_blank, by rw [text, text']; rfl⟩

theorem Record.nextMember_split {first : Bool} {s t : List Char}
    (next : nextMember first s = .ok (.key t)) :
    ∃ b gap, Blank b ∧ Blank gap ∧ s = b ++ due first (gap ++ '"' :: t) := by
  have found := nextMember_eq_key.mp next
  cases first with
  | true =>
    obtain ⟨b, blank, text, -⟩ := skipBlank_form (show skipBlank s = '"' :: t from found)
    exact ⟨b, [], blank, .nil, text⟩
  | false =>
    obtain ⟨s', comma, found⟩ := show ∃ s', skipBlank s = ',' :: s' ∧ skipBlank s' = '"' :: t
      from found
    obtain ⟨b, blank, text, -⟩ := skipBlank_form comma
    obtain ⟨gap, gap_blank, text', -⟩ := skipBlank_form found
    exact ⟨b, gap, blank, gap_blank, by rw [text, text']; rfl⟩

namespace Document

theorem readColon_form {s rest : List Char} (reads : readColon s = .ok rest) :
    ∃ b, Blank b ∧ s = b ++ ':' :: rest := by
  cases found : skipBlank s with
  | nil => simp [readColon, found] at reads
  | cons c t =>
    obtain ⟨b, blank, text, -⟩ := skipBlank_form found
    by_cases colon : c = ':'
    · subst colon
      rw [readColon_of_colon found] at reads
      obtain rfl := Except.ok.inj reads
      exact ⟨b, blank, text⟩
    · rw [readColon_of_other found colon] at reads
      cases reads

/-- What is taken off the front of a short text is a JSON value. -/
def TakesJson (n : Nat) : Prop :=
  ∀ {s rest : List Char} {v : Value}, s.length < n → (document false).run s = .ok (v, rest) →
    ∃ text, s = text ++ rest ∧ IsJson text

section
variable {n : Nat} (inner : TakesJson n)
include inner

theorem Items.form {first : Bool} {s rest : List Char} {vs : List Value}
    (items : Items false first s vs rest) (less : s.length < n) :
    ∃ b ts, Blank b ∧ (∀ t ∈ ts, IsJson t) ∧ s = b ++ (joined first ts ++ ']' :: rest) := by
  induction items with
  | close next =>
    obtain ⟨b, blank, text, -⟩ := skipBlank_form (nextItem_eq_close.mp next)
    exact ⟨b, [], blank, nofun, text⟩
  | item next value others ih =>
    obtain ⟨b, gap, blank, gap_blank, text⟩ := nextItem_split next
    have le := nextItem_item_le next
    have shorter := (document false).shorter value
    obtain ⟨item, item_text, json⟩ := inner (by omega) value
    obtain ⟨e, ts, e_blank, jsons, tail⟩ := ih (by omega)
    refine ⟨b, (gap ++ item ++ e) :: ts, blank, ?_, ?_⟩
    · exact List.forall_mem_cons.mpr ⟨json.pad gap_blank e_blank, jsons⟩
    · rw [text, item_text, tail, joined_false, joined]
      simp [due_append]

theorem Members.form {first : Bool} {s rest : List Char} {ms : List (String × Value)}
    (members : Members false first s ms rest) (less : s.length < n) :
    ∃ (b : List Char) (ds : List MemberText), Blank b ∧ (∀ d ∈ ds, d.WellFormed) ∧
      (∀ d ∈ ds, IsJson d.value) ∧
      s = b ++ (joined first (ds.map MemberText.chars) ++ '\x7d' :: rest) := by
  induction members with
  | close next =>
    obtain ⟨b, blank, text, -⟩ := skipBlank_form (Record.nextMember_eq_close.mp next)
    exact ⟨b, [], blank, nofun, nofun, text⟩
  | member next name colon value others ih =>
    obtain ⟨b, before, blank, before_blank, text⟩ := Record.nextMember_split next
    obtain ⟨body, isBody, body_text, -⟩ := Quoted.read_form name
    obtain ⟨after, after_blank, colon_text⟩ := readColon_form colon
    have := Record.nextMember_key_shorter next
    have := Quoted.read_shorter name
    have := readColon_shorter colon
    have := (document false).shorter value
    obtain ⟨item, item_text, json⟩ := inner (by omega) value
    obtain ⟨e, ds, e_blank, wellFormed, jsons, tail⟩ := ih (by omega)
    refine ⟨b, ⟨before, body, after, item ++ e⟩ :: ds, blank, ?_, ?_, ?_⟩
    · exact List.forall_mem_cons.mpr ⟨⟨before_blank, isBody, after_blank⟩, wellFormed⟩
    · exact List.forall_mem_cons.mpr ⟨json.after e_blank, jsons⟩
    · rw [text, body_text, colon_text, item_text, tail, joined_false, List.map_cons, joined]
      simp [due_append, MemberText.chars]

theorem Opens.form {c : Char} {s rest : List Char} {v : Value} (opens : Opens false c s v rest)
    (less : s.length < n) : ∃ u, s = u ++ rest ∧ IsJson (c :: u) := by
  cases opens with
  | list items =>
    obtain ⟨b, ts, blank, json, text⟩ := items.form inner less
    exact ⟨b ++ (joined true ts ++ [']']), by rw [text]; simp, .list_blank blank json⟩
  | object members =>
    obtain ⟨b, ds, blank, wellFormed, json, text⟩ := members.form inner less
    exact ⟨b ++ (joined true (ds.map MemberText.chars) ++ ['\x7d']), by rw [text]; simp,
      .object_blank blank wellFormed json⟩
  | string token =>
    obtain ⟨body, isBody, text, -⟩ := Quoted.read_form token
    exact ⟨body ++ ['"'], by rw [text]; simp, .string isBody⟩
  | number starts token =>
    obtain ⟨wellFormed, text⟩ := Literal.read_form token
    obtain ⟨d, u, chars, -⟩ := wellFormed.startsNumber
    rw [chars, List.cons_append] at text
    obtain ⟨rfl, tail⟩ := List.cons.inj text
    exact ⟨u, tail, chars ▸ .number wellFormed⟩
  | null word => exact ⟨_, readWord_eq_ok.mp word, .null⟩
  | yes word => exact ⟨_, readWord_eq_ok.mp word, .boolean true⟩
  | no word => exact ⟨_, readWord_eq_ok.mp word, .boolean false⟩

end

theorem takesJson (n : Nat) : TakesJson n := by
  induction n with
  | zero => exact fun less => absurd less (Nat.not_lt_zero _)
  | succ n inner =>
    intro s rest v less run
    obtain ⟨c, t, found, opens⟩ := document_eq_ok.mp run
    obtain ⟨b, blank, text, -⟩ := skipBlank_form found
    have shorter := length_lt_of_skipBlank found
    obtain ⟨u, tail, json⟩ := opens.form inner (by omega)
    exact ⟨b ++ c :: u, by rw [text, tail]; simp, json.before blank⟩

end Document

/-- What is passed over is a JSON value, with blanks in front of it. -/
theorem skipped_form {s rest : List Char} (run : skipped.run s = .ok ((), rest)) :
    ∃ text, s = text ++ rest ∧ IsJson text := by
  obtain ⟨v, value, -⟩ := Reader.map_eq_ok.mp run
  exact Document.takesJson _ (Nat.lt_succ_self _) value

theorem skipped_whole_iff {text : List Char} : skipped.whole text = .ok () ↔ IsJson text := by
  refine ⟨fun reads => ?_, skipped_whole⟩
  obtain ⟨b, blank, run⟩ := Reader.whole_eq_ok.mp reads
  obtain ⟨t, rfl, json⟩ := skipped_form run
  exact json.after blank

instance (text : List Char) : Decidable (IsJson text) := decidable_of_iff _ skipped_whole_iff

example : ∀ text ∈ ["[1,]", "[a]", "['a']", "[\"\n\"]", "[01]", "[1.]", "[\x0c1]"],
    ¬ IsJson text.toList := by decide +kernel

end Spindle.Json
