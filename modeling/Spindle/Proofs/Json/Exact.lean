import Spindle.Proofs.Json.ArrayForm
import Spindle.Proofs.Json.SkippingGrammar

/-!
# What is read is JSON

The converse of reading: what a reader takes off the front of a text is a JSON value, which it reads
alike when nothing follows. Here are integers, truth values, strings, optional values, lists and
tags; of a list, every item is found again as a text of its own.
-/

namespace Spindle.Json

/-- What is taken off the front is a JSON value, which is read alike on its own. -/
def Reader.Exact (r : Reader α) : Prop :=
  ∀ {s v rest}, r.run s = .ok (v, rest) →
    ∃ text, s = text ++ rest ∧ IsJson text ∧ r.whole text = .ok v

theorem Reader.Exact.isJson {r : Reader α} (exact : r.Exact) {text : List Char} {v : α}
    (reads : r.whole text = .ok v) : IsJson text := by
  obtain ⟨b, blank, run⟩ := whole_eq_ok.mp reads
  obtain ⟨t, rfl, json, -⟩ := exact run
  exact json.after blank

class ExactWire (α : Type) [Wire α] : Prop extends ListItem α where
  exact : (Wire.reader : Reader α).Exact

/-! ### Blanks -/

theorem Blank.delimits {b : List Char} (blank : Blank b) : Delimits b := by
  have padded := Delimits.blank_append (s := []) blank nofun
  rwa [List.append_nil] at padded

namespace Reader

/-- A text that is read is read with blanks around it. -/
theorem whole_pad {r : Reader α} (persistent : r.Persistent)
    (skip : ∀ s, r.run (skipBlank s) = r.run s) {b s e : List Char} {v : α}
    (reads : r.whole s = .ok v) (before : Blank b) (after : Blank e) :
    r.whole (b ++ s ++ e) = .ok v := by
  obtain ⟨left, blank, takes⟩ := persistent.takes reads
  refine whole_eq_ok.mpr ⟨left ++ e, blank.append after, ?_⟩
  rw [← skip, List.append_assoc, skipBlank_append_of_blank before, skip, takes e after.delimits]

theorem Exact.map {r : Reader α} (exact : r.Exact) (f : α → β) : (r.map f).Exact := by
  intro s w rest read
  obtain ⟨v, value, rfl⟩ := map_eq_ok.mp read
  obtain ⟨text, split, json, reads⟩ := exact value
  exact ⟨text, split, json, by rw [whole_map, reads]; rfl⟩

theorem exact_afterBlanks {run : Char → List Char → Except Error (α × List Char)}
    {shorter : ∀ {c s v rest}, run c s = .ok (v, rest) → rest.length ≤ s.length}
    (exact : ∀ {c s v rest}, isBlank c = false → run c s = .ok (v, rest) →
      ∃ u, s = u ++ rest ∧ IsJson (c :: u) ∧ run c u = .ok (v, [])) :
    (Reader.afterBlanks run shorter).Exact := by
  intro s v rest read
  obtain ⟨c, t, found, read⟩ := afterBlanks_eq_ok.mp read
  obtain ⟨b, blank, text, notBlank⟩ := skipBlank_form found
  obtain ⟨u, tail, json, again⟩ := exact notBlank read
  refine ⟨b ++ c :: u, by rw [text, tail]; simp, json.before blank,
    whole_eq_ok.mpr ⟨[], .nil, ?_⟩⟩
  exact afterBlanks_eq_ok.mpr ⟨c, u, skipBlank_blank_cons blank notBlank u, again⟩

end Reader

/-! ### Integers, truth values and strings -/

theorem readInteger_exact {expected : String} {convert : Int → Option α} {c : Char}
    {s rest : List Char} {v : α} (read : readInteger expected convert c s = .ok (v, rest)) :
    ∃ u, s = u ++ rest ∧ IsJson (c :: u) ∧ readInteger expected convert c u = .ok (v, []) := by
  obtain ⟨starts, l, z, token, number, converted⟩ := readInteger_eq_ok.mp read
  obtain ⟨wellFormed, text⟩ := Literal.read_form token
  obtain ⟨d, u, chars, -⟩ := wellFormed.startsNumber
  rw [chars, List.cons_append] at text
  obtain ⟨rfl, tail⟩ := List.cons.inj text
  have again : Literal.read .endOfValue (c :: u) = .ok (l, []) := by
    have alone : Literal.read .endOfValue (l.chars ++ []) = .ok (l, []) :=
      Literal.read_append wellFormed nofun
    rwa [List.append_nil, chars] at alone
  exact ⟨u, tail, chars ▸ .number wellFormed,
    readInteger_eq_ok.mpr ⟨starts, l, z, again, number, converted⟩⟩

theorem integer_exact (expected : String) (convert : Int → Option α) :
    (integer expected convert).Exact :=
  Reader.exact_afterBlanks fun _ => readInteger_exact

instance : ExactWire UInt64 := ⟨integer_exact _ _⟩

instance : ExactWire UInt32 := ⟨integer_exact _ _⟩

instance : ExactWire Int32 := ⟨integer_exact _ _⟩

theorem readBoolean_exact {c : Char} {s rest : List Char} {v : Bool}
    (read : readBoolean c s = .ok (v, rest)) :
    ∃ u, s = u ++ rest ∧ IsJson (c :: u) ∧ readBoolean c u = .ok (v, []) := by
  obtain ⟨rfl, word, rfl⟩ | ⟨rfl, word, rfl⟩ := readBoolean_eq_ok.mp read
  · exact ⟨_, readWord_eq_ok.mp word, .boolean true, rfl⟩
  · exact ⟨_, readWord_eq_ok.mp word, .boolean false, rfl⟩

instance : ExactWire Bool := ⟨Reader.exact_afterBlanks fun _ => readBoolean_exact⟩

theorem Quoted.read_exact {strict : Bool} {s cs rest : List Char}
    (read : Quoted.read strict s = .ok (cs, rest)) :
    ∃ body, IsBody body ∧ s = body ++ '"' :: rest ∧
      Quoted.read strict (body ++ ['"']) = .ok (cs, []) := by
  obtain ⟨body, isBody, text, again⟩ := Quoted.read_form read
  exact ⟨body, isBody, text, again []⟩

theorem readString_exact {c : Char} {s rest : List Char} {v : String}
    (read : readString c s = .ok (v, rest)) :
    ∃ u, s = u ++ rest ∧ IsJson (c :: u) ∧ readString c u = .ok (v, []) := by
  obtain ⟨rfl, cs, token, rfl⟩ := readString_eq_ok.mp read
  obtain ⟨body, isBody, text, again⟩ := Quoted.read_exact token
  exact ⟨body ++ ['"'], by rw [text]; simp, .string isBody,
    readString_eq_ok.mpr ⟨rfl, cs, again, rfl⟩⟩

instance : ExactWire String := ⟨Reader.exact_afterBlanks fun _ => readString_exact⟩

/-! ### Optional values -/

theorem readOption_exact {r : Reader α} (exact : r.Exact) :
    (⟨readOption r, readOption_shorter⟩ : Reader (Option α)).Exact := by
  intro s v rest read
  obtain ⟨b, blank, whole⟩ := skipBlank_split s
  obtain ⟨t, found, word, rfl⟩ | ⟨null, w, value, rfl⟩ := readOption_eq_ok.mp read
  · rw [found, readWord_eq_ok.mp word] at whole
    have start : skipBlank (b ++ ['n', 'u', 'l', 'l']) = ['n', 'u', 'l', 'l'] :=
      skipBlank_blank_cons blank rfl _
    exact ⟨b ++ ['n', 'u', 'l', 'l'], by rw [whole]; simp, IsJson.null.before blank,
      Reader.whole_eq_ok.mpr ⟨[], .nil, readOption_eq_ok.mpr (.inl ⟨_, start, rfl, rfl⟩)⟩⟩
  · obtain ⟨text, tail, json, again⟩ := exact value
    -- the text of the value starts where the blanks end
    obtain ⟨c, u, rfl⟩ := List.exists_cons_of_ne_nil json.ne_nil
    obtain ⟨_, _, _, notBlank⟩ := skipBlank_form tail
    have start : skipBlank (b ++ c :: u) = c :: u := skipBlank_blank_cons blank notBlank u
    rw [tail] at null
    obtain ⟨left, left_blank, run⟩ := Reader.whole_eq_ok.mp again
    refine ⟨b ++ c :: u, by rw [List.append_assoc, ← tail, ← whole], json.before blank,
      Reader.whole_eq_ok.mpr ⟨left, left_blank, readOption_eq_ok.mpr (.inr ?_)⟩⟩
    rw [start]
    exact ⟨null, w, run, rfl⟩

instance [Wire α] [ExactWire α] [NonNull α] : ExactWire (Option α) :=
  ⟨readOption_exact ExactWire.exact⟩

/-! ### Lists -/

theorem nextItem_skipBlank (first : Bool) (s : List Char) :
    nextItem first (skipBlank s) = nextItem first s := by
  rw [nextItem, nextItem, skipBlank_skipBlank]

theorem run_items_skipBlank {item : Reader α} (read : List α) (s : List Char) :
    (items item).run read (skipBlank s) = (items item).run read s := by
  have same : (items item).step read (skipBlank s) = (items item).step read s := by
    show readItem _ _ _ = readItem _ _ _
    rw [readItem, readItem, nextItem_skipBlank]
  rw [Loop.run_eq, same, ← Loop.run_eq]

/-- The text of an item that is due, with the comma in front of it, and what follows it. -/
theorem nextItem_form {first : Bool} {s t : List Char}
    (next : nextItem first s = .ok (.item t)) (start : first = true ∨ skipBlank s = s) :
    ∃ b, Blank b ∧ s = due first (b ++ t) ∧ skipBlank t = t := by
  obtain ⟨c, u, rfl, notClose, found⟩ := nextItem_eq_item.mp next
  cases first with
  | true =>
    have found : skipBlank s = c :: u := found
    obtain ⟨b, blank, text, notBlank⟩ := skipBlank_form found
    exact ⟨b, blank, text, skipBlank_cons notBlank u⟩
  | false =>
    obtain ⟨s', comma, found⟩ := show ∃ s', skipBlank s = ',' :: s' ∧ skipBlank s' = c :: u from found
    obtain ⟨b, blank, text, notBlank⟩ := skipBlank_form found
    have start := start.resolve_left nofun
    refine ⟨b, blank, ?_, skipBlank_cons notBlank u⟩
    rw [← start, comma, text]
    rfl

section
variable [Wire α] [ExactWire α]

/-- Every item is a text of its own, with the blanks around it. -/
theorem items_form {read vs : List α} {s rest : List Char}
    (run : (items Wire.reader).run read s = .ok (vs, rest))
    (start : read.isEmpty = true ∨ skipBlank s = s) :
    ∃ ds ws gap, EachReads ds ws ∧ (∀ d ∈ ds, IsJson d) ∧ vs = read.reverse ++ ws ∧ Blank gap ∧
      (read.isEmpty = false ∨ ds ≠ [] → gap = []) ∧
      s = joined read.isEmpty ds ++ (gap ++ ']' :: rest) := by
  induction len : s.length using Nat.strongRecOn generalizing read s with
  | ind n ih =>
    obtain ⟨close, rfl⟩ | ⟨t, v, u, next, item, run⟩ := run_items_eq_ok.mp run
    · have closed : read.isEmpty = false → skipBlank s = s :=
        fun some => start.resolve_left (by rw [some]; nofun)
      obtain ⟨gap, blank, closed, text⟩ := skipBlank_gap (nextItem_eq_close.mp close) closed
      exact ⟨[], [], gap, .nil, nofun, by simp, blank,
        fun later => closed (later.resolve_right fun none => none rfl), text⟩
    · obtain ⟨b, blank, text, -⟩ := nextItem_form next start
      obtain ⟨d, split, json, alone⟩ := ExactWire.exact item
      have less : (skipBlank u).length < n := by
        have dropped := length_skipBlank_le u
        have due := nextItem_item_le next
        have taken := Reader.shorter _ item
        omega
      obtain ⟨gap, gap_blank, after⟩ := skipBlank_split u
      rw [← run_items_skipBlank] at run
      obtain ⟨ds, ws, none, reads, jsons, rfl, -, closed, tail⟩ :=
        ih _ less run (.inr (skipBlank_skipBlank u)) rfl
      obtain rfl := closed (.inl rfl)
      refine ⟨(b ++ d ++ gap) :: ds, v :: ws, [], .cons ?_ reads, ?_, by simp, .nil,
        fun _ => rfl, ?_⟩
      · exact Reader.whole_pad PersistentWire.persistent run_skipBlank alone blank gap_blank
      · exact List.forall_mem_cons.mpr ⟨json.pad blank gap_blank, jsons⟩
      · rw [List.isEmpty_cons, joined_false] at tail
        rw [text, split, after, tail, joined]
        simp [due_append]

omit [Wire α] [ExactWire α] in
theorem isJson_list {ds : List (List Char)} {gap : List Char} (json : ∀ d ∈ ds, IsJson d)
    (blank : Blank gap) (closed : ds ≠ [] → gap = []) :
    IsJson ('[' :: (separated ds ++ (gap ++ [']']))) := by
  by_cases empty : ds = []
  · subst empty
    exact .emptyList blank
  · rw [closed empty, List.nil_append]
    exact .list empty json

theorem readList_form {c : Char} {s rest : List Char} {vs : List α}
    (read : readList Wire.reader c s = .ok (vs, rest)) :
    c = '[' ∧ ∃ ds gap, EachReads ds vs ∧ (∀ d ∈ ds, IsJson d) ∧ Blank gap ∧
      (ds ≠ [] → gap = []) ∧ s = separated ds ++ (gap ++ ']' :: rest) := by
  obtain ⟨bracket, run⟩ := readList_eq_ok.mp read
  obtain ⟨ds, ws, gap, reads, json, same, blank, closed, text⟩ := items_form run (.inl rfl)
  obtain rfl : vs = ws := same
  rw [List.isEmpty_nil, joined_true] at text
  exact ⟨bracket, ds, gap, reads, json, blank, fun some => closed (.inr some), text⟩

theorem readList_exact {c : Char} {s rest : List Char} {vs : List α}
    (read : readList Wire.reader c s = .ok (vs, rest)) :
    ∃ u, s = u ++ rest ∧ IsJson (c :: u) ∧ readList Wire.reader c u = .ok (vs, []) := by
  obtain ⟨rfl, ds, gap, reads, json, blank, closed, text⟩ := readList_form read
  refine ⟨separated ds ++ (gap ++ [']']), by rw [text]; simp, isJson_list json blank closed, ?_⟩
  exact readList_joined reads.takesItem blank []

instance : ExactWire (List α) where
  exact := by
    change (Reader.afterBlanks (readList Wire.reader) readList_le).Exact
    exact Reader.exact_afterBlanks fun _ => readList_exact

end

/-! ### Tags -/

theorem unit_exact : unit.Exact := by
  refine Reader.exact_afterBlanks fun _ read => ?_
  obtain ⟨rfl, word⟩ := readUnit_eq_ok.mp read
  exact ⟨_, readWord_eq_ok.mp word, .null, rfl⟩

namespace Tags

variable {t : Tags α}

/-- The one member of a tag that is written as an object. -/
theorem readKeyed_of_member {b body gap word e : List Char} {tag : List Char} {v : α}
    (blank : Blank b) (spells : ∀ more, Quoted.read true (body ++ '"' :: more) = .ok (tag, more))
    (known : t.ofTag (String.ofList tag) = .ok v) (gap_blank : Blank gap)
    (null : unit.whole word = .ok ()) (e_blank : Blank e) (rest : List Char) :
    t.readKeyed (b ++ '"' :: (body ++ '"' :: (gap ++ ':' :: (word ++ (e ++ '\x7d' :: rest))))) =
      .ok (v, rest) := by
  obtain ⟨left, left_blank, takes⟩ := unit_persistent.takes null
  have value := takes (e ++ '\x7d' :: rest) (.blank_append e_blank (.cons rfl rest))
  have close : skipBlank (left ++ (e ++ '\x7d' :: rest)) = '\x7d' :: rest := by
    rw [skipBlank_append_of_blank left_blank, skipBlank_blank_cons e_blank rfl]
  simp only [readKeyed, skipBlank_blank_cons blank (c := '"') rfl, spells, known,
    Document.readColon_append gap_blank, value, close]

theorem readKeyed_exact {s rest : List Char} {v : α} (read : t.readKeyed s = .ok (v, rest)) :
    ∃ u, s = u ++ rest ∧ IsJson ('\x7b' :: u) ∧ t.readKeyed u = .ok (v, []) := by
  obtain ⟨s₁, tag, s₂, s₃, s₄, found, name, known, colon, null, close⟩ := readKeyed_eq_ok.mp read
  obtain ⟨b, blank, text, -⟩ := skipBlank_form found
  obtain ⟨body, isBody, text₁, spells⟩ := Quoted.read_form name
  obtain ⟨gap, gap_blank, text₂⟩ := Document.readColon_form colon
  obtain ⟨word, text₃, json, alone⟩ := unit_exact null
  obtain ⟨e, e_blank, text₄, -⟩ := skipBlank_form close
  let member : MemberText := ⟨b, body, gap, word ++ e⟩
  have object : IsJson ('\x7b' :: (separated ([member].map MemberText.chars) ++ ['\x7d'])) := by
    refine .object (List.cons_ne_nil _ _) ?_ ?_
    · intro m mem
      rw [List.mem_singleton.mp mem]
      exact ⟨blank, isBody, gap_blank⟩
    · intro m mem
      rw [List.mem_singleton.mp mem]
      exact json.after e_blank
  refine ⟨separated ([member].map MemberText.chars) ++ ['\x7d'], ?_, object, ?_⟩
  · simp [text, text₁, text₂, text₃, text₄, separated, following, MemberText.chars, member]
  · have again := readKeyed_of_member blank spells known gap_blank alone e_blank []
    simpa [separated, following, MemberText.chars, member] using again

theorem read_exact {c : Char} {s rest : List Char} {v : α} (read : t.read c s = .ok (v, rest)) :
    ∃ u, s = u ++ rest ∧ IsJson (c :: u) ∧ t.read c u = .ok (v, []) := by
  obtain ⟨rfl, tag, token, known⟩ | ⟨rfl, keyed⟩ := read_eq_ok.mp read
  · obtain ⟨body, isBody, text, again⟩ := Quoted.read_exact token
    exact ⟨body ++ ['"'], by rw [text]; simp, .string isBody,
      read_eq_ok.mpr (.inl ⟨rfl, tag, again, known⟩)⟩
  · obtain ⟨u, text, json, again⟩ := readKeyed_exact keyed
    exact ⟨u, text, json, read_eq_ok.mpr (.inr ⟨rfl, again⟩)⟩

theorem reader_exact (t : Tags α) : t.reader.Exact :=
  Reader.exact_afterBlanks fun _ => read_exact

end Tags

end Spindle.Json
