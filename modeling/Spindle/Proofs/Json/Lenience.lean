import Spindle.Proofs.Json.Documents

/-!
# Strict and lenient reading

A text that is read strictly is read leniently, and as much of it is taken. Only a surrogate pair
makes a difference: it stands for a character beyond U+FFFF, or for two times U+FFFD.
-/

namespace Spindle.Json

/-! ### Strings -/

namespace Quoted

/-- The characters of a string with its surrogate escapes in pairs, and with each of them for
U+FFFD. -/
def Blurred (cs ds : List Char) : Prop := ds = cs ∨ '\uFFFD' ∈ ds ∧ ∃ c ∈ cs, 0xFFFF < c.toNat

/-- All characters are before U+FFFD. -/
def Near (text : String) : Prop := ∀ c ∈ text.toList, c.toNat < 0xFFFD

instance (text : String) : Decidable (Near text) :=
  List.decidableBAll (fun c : Char => c.toNat < 0xFFFD) text.toList

namespace Blurred

variable {cs ds : List Char}

theorem append {cs' ds' : List Char} (blurred : Blurred cs ds) (others : Blurred cs' ds') :
    Blurred (cs ++ cs') (ds ++ ds') := by
  obtain rfl | ⟨replaced, d, mem, far⟩ := blurred
  · obtain rfl | ⟨replaced, d, mem, far⟩ := others
    · exact .inl rfl
    · exact .inr ⟨List.mem_append_right _ replaced, d, List.mem_append_right _ mem, far⟩
  · exact .inr ⟨List.mem_append_left _ replaced, d, List.mem_append_left _ mem, far⟩

/-- Where all characters are before U+FFFD, nothing is changed. -/
theorem eq_iff (blurred : Blurred cs ds) {key : String} (near : Near key) :
    String.ofList cs = key ↔ String.ofList ds = key := by
  obtain rfl | ⟨replaced, d, mem, far⟩ := blurred
  · exact Iff.rfl
  · constructor
    · rintro rfl
      have := near d (by rwa [String.toList_ofList])
      omega
    · rintro rfl
      exact absurd (near _ (by rwa [String.toList_ofList])) (by decide)

end Blurred

theorem ofPair_far {high low : Nat} (isHigh : isHighSurrogate high = true)
    (isLow : isLowSurrogate low = true) : 0xFFFF < (ofPair high low).toNat := by
  simp only [isHighSurrogate, isLowSurrogate, Bool.and_eq_true, decide_eq_true_eq] at isHigh isLow
  have valid : ((high - 0xD800) * 0x400 + (low - 0xDC00) + 0x10000).isValidChar :=
    .inr ⟨by omega, by omega⟩
  rw [ofPair, Char.ofNat, dif_pos valid]
  show 0xFFFF < (high - 0xD800) * 0x400 + (low - 0xDC00) + 0x10000
  omega

variable {s rest : List Char} {c : Char}

/-- Leniently, each half of a pair is an escape of its own. -/
theorem Escape.lenient {u ds : List Char} (escape : Escape true u c) (others : Reads false s ds) :
    ∃ es, Reads false ('\\' :: (u ++ s)) (es ++ ds) ∧ Blurred [c] es := by
  cases escape with
  | short known => exact ⟨[c], .escape (.short known) others, .inl rfl⟩
  | unit digits notLow notHigh => exact ⟨_, .escape (.unit digits notLow notHigh) others, .inl rfl⟩
  | half lenient => cases lenient
  | pair _ first isHigh second isLow =>
    have low := Reads.escape (.half rfl second (.inl isLow)) others
    have both := Reads.escape (.half rfl first (.inr isHigh)) low
    refine ⟨['\uFFFD', '\uFFFD'], ?_, .inr ⟨List.mem_cons_self, _, List.mem_cons_self,
      ofPair_far isHigh isLow⟩⟩
    rw [List.cons_append, List.append_assoc]
    exact both

theorem Reads.lenient {cs : List Char} (reads : Reads true s cs) :
    ∃ ds, Reads false s ds ∧ Blurred cs ds := by
  induction reads with
  | nil => exact ⟨[], .nil, .inl rfl⟩
  | @plain c _ _ printable notQuote notBackslash _ ih =>
    obtain ⟨ds, others, blurred⟩ := ih
    have same : Blurred [c] [c] := .inl rfl
    exact ⟨_, .plain printable notQuote notBackslash others, same.append blurred⟩
  | escape escape _ ih =>
    obtain ⟨ds, others, blurred⟩ := ih
    obtain ⟨es, reads, first⟩ := escape.lenient others
    exact ⟨es ++ ds, reads, first.append blurred⟩

/-- In either way the same text is taken for a string. -/
theorem read_blurred {cs ds rest' : List Char} {strict : Bool}
    (strictly : Quoted.read true s = .ok (cs, rest))
    (reads : Quoted.read strict s = .ok (ds, rest')) : rest' = rest ∧ Blurred cs ds := by
  cases strict with
  | true =>
    cases strictly.symm.trans reads
    exact ⟨rfl, .inl rfl⟩
  | false =>
    obtain ⟨body, paired, rfl⟩ := read_eq_ok.mp strictly
    obtain ⟨_, leniently, blurred⟩ := paired.lenient
    cases (read_eq_ok.mpr ⟨body, leniently, rfl⟩).symm.trans reads
    exact ⟨rfl, blurred⟩

theorem rest_unique {cs ds rest' : List Char} {strict strict' : Bool}
    (reads : Quoted.read strict s = .ok (cs, rest))
    (reads' : Quoted.read strict' s = .ok (ds, rest')) : rest' = rest := by
  cases strict with
  | true => exact (read_blurred reads reads').1
  | false =>
    cases strict' with
    | true => exact (read_blurred reads' reads).1.symm
    | false =>
      cases reads.symm.trans reads'
      rfl

end Quoted

/-! ### Values -/

namespace Document

variable {strict strict' : Bool} {first : Bool} {s rest rest' : List Char}

/-- In either way a value of less than `n` characters takes the same text. -/
def TakesAlike (strict strict' : Bool) (n : Nat) : Prop :=
  ∀ s : List Char, s.length < n → ∀ v v' rest rest',
    (document strict).run s = .ok (v, rest) → (document strict').run s = .ok (v', rest') →
    rest' = rest

theorem Items.rest_unique (inner : TakesAlike strict strict' n) (le : s.length < n)
    {vs vs' : List Value} (items : Items strict first s vs rest)
    (items' : Items strict' first s vs' rest') : rest' = rest := by
  induction items generalizing vs' with
  | close next =>
    cases items' with
    | close next' =>
      cases next.symm.trans next'
      rfl
    | item next' => cases next.symm.trans next'
  | item next value _ ih =>
    cases items' with
    | close next' => cases next.symm.trans next'
    | item next' value' others' =>
      cases next.symm.trans next'
      have less := nextItem_item_le next
      have shorter := (document strict).shorter value
      obtain rfl := inner _ (by omega) _ _ _ _ value value'
      exact ih (by omega) others'

theorem Members.rest_unique (inner : TakesAlike strict strict' n) (le : s.length < n)
    {ms ms' : List (String × Value)} (members : Members strict first s ms rest)
    (members' : Members strict' first s ms' rest') : rest' = rest := by
  induction members generalizing ms' with
  | close next =>
    cases members' with
    | close next' =>
      cases next.symm.trans next'
      rfl
    | member next' => cases next.symm.trans next'
  | member next name colon value _ ih =>
    cases members' with
    | close next' => cases next.symm.trans next'
    | member next' name' colon' value' others' =>
      cases next.symm.trans next'
      have := Record.nextMember_key_shorter next
      have := Quoted.read_shorter name
      have := readColon_shorter colon
      have := (document strict).shorter value
      obtain rfl := Quoted.rest_unique name name'
      cases colon.symm.trans colon'
      obtain rfl := inner _ (by omega) _ _ _ _ value value'
      exact ih (by omega) others'

theorem Opens.rest_unique (inner : TakesAlike strict strict' n) {c : Char} (le : s.length < n)
    {v v' : Value} (opens : Opens strict c s v rest) (opens' : Opens strict' c s v' rest') :
    rest' = rest := by
  cases opens with
  | list items =>
    cases opens' with
    | list items' => exact items.rest_unique inner le items'
    | number starts => cases starts
  | object members =>
    cases opens' with
    | object members' => exact members.rest_unique inner le members'
    | number starts => cases starts
  | string reads =>
    cases opens' with
    | string reads' => exact Quoted.rest_unique reads reads'
    | number starts => cases starts
  | number starts reads =>
    cases opens' with
    | number _ reads' =>
      cases (Literal.read_ok reads _).symm.trans reads'
      rfl
    | list | object | string | null | yes | no => cases starts
  | null word =>
    cases opens' with
    | null word' =>
      cases word.symm.trans word'
      rfl
    | number starts => cases starts
  | yes word =>
    cases opens' with
    | yes word' =>
      cases word.symm.trans word'
      rfl
    | number starts => cases starts
  | no word =>
    cases opens' with
    | no word' =>
      cases word.symm.trans word'
      rfl
    | number starts => cases starts

theorem takesAlike (strict strict' : Bool) (n : Nat) : TakesAlike strict strict' n := by
  induction n using Nat.strongRecOn with
  | ind n ih =>
    intro s less v v' rest rest' run run'
    obtain ⟨c, t, found, opens⟩ := document_eq_ok.mp run
    obtain ⟨c', t', found', opens'⟩ := document_eq_ok.mp run'
    cases found.symm.trans found'
    exact opens.rest_unique (ih s.length less) (length_lt_of_skipBlank found) opens'

end Document

theorem document_rest_unique {strict strict' : Bool} {s rest rest' : List Char} {v v' : Value}
    (run : (document strict).run s = .ok (v, rest))
    (run' : (document strict').run s = .ok (v', rest')) : rest' = rest :=
  Document.takesAlike strict strict' (s.length + 1) s (Nat.lt_succ_self _) v v' rest rest' run run'

end Spindle.Json
