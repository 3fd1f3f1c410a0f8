import Spindle.Proofs.Json.Whole

/-!
# Documents item by item

The reader of any value keeps on a stack what is open. Here what it reads is taken apart as the
readers of lists and records take their texts apart, so that both can be followed side by side.
-/

namespace Spindle.Json

namespace Document

variable {strict : Bool}

/-! ### The stack -/

/-- The state when more lists and objects enclose it. -/
def State.over (base : List Frame) : State → State
  | .value stack => .value (stack ++ base)
  | .list items stack => .list items (stack ++ base)
  | .object members stack => .object members (stack ++ base)

def enclose (base : List Frame) : Turn State Value → Turn State Value
  | .again state rest => .again (state.over base) rest
  | .done v rest => close v base rest

theorem close_append (v : Value) (stack base : List Frame) (rest : List Char) :
    close v (stack ++ base) rest = enclose base (close v stack rest) := by
  match stack with
  | [] => rfl
  | .list _ :: _ => rfl
  | .object _ _ :: _ => rfl

theorem readValue_append (stack base : List Frame) (c : Char) (s : List Char) :
    readValue strict (stack ++ base) c s = (readValue strict stack c s).map (enclose base) := by
  unfold readValue
  repeat' split
  all_goals first | rfl | exact congrArg Except.ok (close_append _ stack base _)

theorem readKey_append (members : List (String × Value)) (stack base : List Frame)
    (s : List Char) :
    readKey strict members (stack ++ base) s =
      (readKey strict members stack s).map (enclose base) := by
  unfold readKey
  repeat' split
  all_goals rfl

theorem step_over (base : List Frame) (state : State) (s : List Char) :
    step strict (state.over base) s = (step strict state s).map (enclose base) := by
  cases state with
  | value stack =>
    simp only [State.over, step]
    split
    · rfl
    · exact readValue_append stack base _ _
  | list items stack =>
    simp only [State.over, step]
    repeat' split
    · rfl
    · exact congrArg Except.ok (close_append _ stack base _)
    · exact readValue_append (.list [] :: stack) base _ _
    · rfl
    · rfl
  | object members stack =>
    simp only [State.over, step]
    repeat' split
    · rfl
    · exact congrArg Except.ok (close_append _ stack base _)
    · exact readKey_append [] stack base _
    · exact readKey_append members stack base _
    · rfl

/-- What the reader gives after a turn. -/
def resume (strict : Bool) : Turn State Value → Except Error (Value × List Char)
  | .again state rest => (loop strict).run state rest
  | .done v rest => .ok (v, rest)

theorem run_eq_resume (state : State) (s : List Char) :
    (loop strict).run state s =
      match step strict state s with
      | .error e => .error e
      | .ok turn => resume strict turn := by
  rw [Loop.run_eq, show (loop strict).step state s = step strict state s from rfl]
  rcases step strict state s with e | ⟨state, rest⟩ | ⟨v, rest⟩ <;> rfl

theorem run_eq_ok {state : State} {s rest : List Char} {w : Value} :
    (loop strict).run state s = .ok (w, rest) ↔
      ∃ turn, step strict state s = .ok turn ∧ resume strict turn = .ok (w, rest) := by
  rw [run_eq_resume]
  cases step strict state s <;> simp

/-- What encloses a value does not change how it is read, and is gone on with behind it. -/
theorem run_over (base : List Frame) (state : State) (s : List Char) :
    (loop strict).run (state.over base) s =
      match (loop strict).run state s with
      | .error e => .error e
      | .ok (v, rest) => resume strict (close v base rest) := by
  induction len : s.length using Nat.strongRecOn generalizing state s with
  | ind n ih =>
    rw [run_eq_resume, run_eq_resume, step_over]
    cases turn : step strict state s with
    | error e => rfl
    | ok next =>
      cases next with
      | done v rest => rfl
      | again state rest => exact ih rest.length (len ▸ step_shorter turn) state rest rfl

theorem run_value_of {s rest : List Char} {v : Value}
    (reads : (document strict).run s = .ok (v, rest)) (base : List Frame) :
    (loop strict).run (.value base) s = resume strict (close v base rest) := by
  have apart : (loop strict).run (.value base) s = _ := run_over base (.value []) s
  rw [apart, show (loop strict).run (.value []) s = _ from reads]

theorem run_value_over {base : List Frame} {s : List Char} {w : Value} {rest : List Char}
    (run : (loop strict).run (.value base) s = .ok (w, rest)) :
    ∃ v t, (document strict).run s = .ok (v, t) ∧
      resume strict (close v base t) = .ok (w, rest) := by
  cases first : (document strict).run s with
  | error e =>
    have apart : (loop strict).run (.value base) s = _ := run_over base (.value []) s
    rw [apart, show (loop strict).run (.value []) s = _ from first] at run
    cases run
  | ok read =>
    rw [run_value_of first] at run
    exact ⟨read.1, read.2, rfl, run⟩

theorem run_value_skipBlank (stack : List Frame) (s : List Char) :
    (loop strict).run (.value stack) (skipBlank s) = (loop strict).run (.value stack) s := by
  rw [run_eq_resume, run_eq_resume, step, step, skipBlank_skipBlank]

/-! ### Items and members -/

/-- The items of a list from a place between them on, and what follows the list. -/
inductive Items (strict : Bool) : Bool → List Char → List Value → List Char → Prop where
  | close {first : Bool} {s rest : List Char} (next : nextItem first s = .ok (.close rest)) :
      Items strict first s [] rest
  | item {first : Bool} {s t t' rest : List Char} {v : Value} {vs : List Value}
      (next : nextItem first s = .ok (.item t)) (value : (document strict).run t = .ok (v, t'))
      (others : Items strict false t' vs rest) : Items strict first s (v :: vs) rest

/-- The members of an object from a place between them on, and what follows the object. -/
inductive Members (strict : Bool) :
    Bool → List Char → List (String × Value) → List Char → Prop where
  | close {first : Bool} {s rest : List Char} (next : Record.nextMember first s = .ok (.close rest)) :
      Members strict first s [] rest
  | member {first : Bool} {s t u t' rest key : List Char} {v : Value} {ms : List (String × Value)}
      (next : Record.nextMember first s = .ok (.key t))
      (name : Quoted.read strict t = .ok (key, u))
      {after : List Char} (colon : readColon u = .ok after)
      (value : (document strict).run after = .ok (v, t'))
      (others : Members strict false t' ms rest) :
      Members strict first s ((String.ofList key, v) :: ms) rest

/-- What the document reader makes of a value that starts with a character. -/
inductive Opens (strict : Bool) : Char → List Char → Value → List Char → Prop where
  | list {s rest : List Char} {vs : List Value} (items : Items strict true s vs rest) :
      Opens strict '[' s (.array vs) rest
  | object {s rest : List Char} {ms : List (String × Value)}
      (members : Members strict true s ms rest) : Opens strict '\x7b' s (.object ms) rest
  | string {s cs rest : List Char} (reads : Quoted.read strict s = .ok (cs, rest)) :
      Opens strict '"' s (.string (String.ofList cs)) rest
  | number {c : Char} {s rest : List Char} {l : Literal} (starts : startsNumber c = true)
      {e : Error} (reads : Literal.read e (c :: s) = .ok (l, rest)) :
      Opens strict c s (.number l) rest
  | null {s rest : List Char} (word : readWord ['u', 'l', 'l'] s = .ok rest) :
      Opens strict 'n' s .null rest
  | yes {s rest : List Char} (word : readWord ['r', 'u', 'e'] s = .ok rest) :
      Opens strict 't' s (.boolean true) rest
  | no {s rest : List Char} (word : readWord ['a', 'l', 's', 'e'] s = .ok rest) :
      Opens strict 'f' s (.boolean false) rest

section
variable {s rest : List Char} {w : Value}

theorem run_value_bracket (base : List Frame) (t : List Char) :
    (loop strict).run (.value base) (']' :: t) = .error .expectedValue := by
  rw [run_eq_resume, step, skipBlank_cons rfl]
  rfl

theorem run_list_close {items : List Value} (next : nextItem items.isEmpty s = .ok (.close rest)) :
    (loop strict).run (.list items []) s = .ok (.array items.reverse, rest) := by
  have found := nextItem_eq_close.mp next
  exact run_eq_ok.mpr ⟨_, step_list_eq_ok.mpr ⟨_, _, found, .inl ⟨rfl, rfl⟩⟩, rfl⟩

theorem run_list_item {items : List Value} {t : List Char}
    (next : nextItem items.isEmpty s = .ok (.item t)) :
    (loop strict).run (.list items []) s = (loop strict).run (.value [.list items]) t := by
  obtain ⟨c, u, rfl, notClose, found⟩ := nextItem_eq_item.mp next
  cases items with
  | nil =>
    have found : skipBlank s = c :: u := found
    have same : step strict (.list [] []) s = step strict (.value [.list []]) s := by
      simp only [step, found, if_neg notClose]
      rfl
    rw [← found, run_value_skipBlank, run_eq_resume, same, ← run_eq_resume]
  | cons v items =>
    obtain ⟨s', comma, found⟩ := show ∃ s', skipBlank s = ',' :: s' ∧ skipBlank s' = c :: u
      from found
    have turn : step strict (.list (v :: items) []) s = _ :=
      step_list_eq_ok.mpr ⟨_, _, comma, .inr (.inr ⟨rfl, List.cons_ne_nil v items, rfl⟩)⟩
    rw [← found, run_value_skipBlank, run_eq_resume, turn]
    rfl

/-- The list is at its end, or has another item. -/
theorem run_list_cases {items : List Value}
    (run : (loop strict).run (.list items []) s = .ok (w, rest)) :
    nextItem items.isEmpty s = .ok (.close rest) ∧ w = .array items.reverse ∨
      ∃ t, nextItem items.isEmpty s = .ok (.item t) ∧
        (loop strict).run (.value [.list items]) t = .ok (w, rest) := by
  obtain ⟨turn, step, resumed⟩ := run_eq_ok.mp run
  obtain ⟨c, t, found, next⟩ := step_list_eq_ok.mp step
  obtain ⟨rfl, rfl⟩ | ⟨notClose, rfl, -⟩ | ⟨rfl, some, rfl⟩ := next
  · cases resumed
    exact .inl ⟨nextItem_eq_close.mpr found, rfl⟩
  · have next : nextItem true s = _ := nextItem_eq_item.mpr ⟨c, t, rfl, notClose, found⟩
    have item : (loop strict).run (.list [] []) s = _ := run_list_item next
    exact .inr ⟨_, next, item.symm.trans run⟩
  · -- an item follows the comma, as no value starts with the bracket
    have value : (loop strict).run (.value [.list items]) (skipBlank t) = .ok (w, rest) :=
      (run_value_skipBlank _ t).trans resumed
    obtain ⟨_, opens, -⟩ := run_eq_ok.mp value
    obtain ⟨d, u, found', -⟩ := step_value_eq_ok.mp opens
    rw [skipBlank_skipBlank] at found'
    rw [found'] at value
    have notClose : d ≠ ']' := by
      rintro rfl
      rw [run_value_bracket] at value
      cases value
    have later : items.isEmpty = false := by simpa using some
    rw [later]
    exact .inr ⟨d :: u, nextItem_eq_item.mpr ⟨d, u, rfl, notClose, t, found, found'⟩, value⟩

theorem items_of_run {items : List Value}
    (run : (loop strict).run (.list items []) s = .ok (w, rest)) :
    ∃ vs, w = .array (items.reverse ++ vs) ∧ Items strict items.isEmpty s vs rest := by
  induction len : s.length using Nat.strongRecOn generalizing items s with
  | ind n ih =>
    obtain ⟨next, rfl⟩ | ⟨t, next, run⟩ := run_list_cases run
    · exact ⟨[], by rw [List.append_nil], .close next⟩
    · obtain ⟨v, t', value, run⟩ := run_value_over run
      have less := nextItem_item_le next
      have shorter := (document strict).shorter value
      obtain ⟨vs, rfl, others⟩ := ih t'.length (by omega) run rfl
      exact ⟨v :: vs, by simp, .item next value others⟩

theorem Items.run {first : Bool} {vs : List Value} (all : Items strict first s vs rest)
    {items : List Value} (isFirst : items.isEmpty = first) :
    (loop strict).run (.list items []) s = .ok (.array (items.reverse ++ vs), rest) := by
  induction all generalizing items with
  | close next =>
    rw [run_list_close (isFirst ▸ next), List.append_nil]
  | @item _ _ _ _ _ v _ next value _ ih =>
    have later := @ih (v :: items) rfl
    rw [List.reverse_cons, List.append_assoc] at later
    rw [run_list_item (isFirst ▸ next), run_value_of value]
    exact later

theorem run_object_close {members : List (String × Value)}
    (next : Record.nextMember members.isEmpty s = .ok (.close rest)) :
    (loop strict).run (.object members []) s = .ok (.object members.reverse, rest) := by
  have found := Record.nextMember_eq_close.mp next
  exact run_eq_ok.mpr ⟨_, step_object_eq_ok.mpr ⟨_, _, found, .inl ⟨rfl, rfl⟩⟩, rfl⟩

theorem run_object_member {members : List (String × Value)} {t key u after : List Char}
    (next : Record.nextMember members.isEmpty s = .ok (.key t))
    (name : Quoted.read strict t = .ok (key, u)) (colon : readColon u = .ok after) :
    (loop strict).run (.object members []) s =
      (loop strict).run (.value [.object members (String.ofList key)]) after := by
  have read {s' : List Char} (quote : skipBlank s' = '"' :: t) :
      readKey strict members [] s' =
        .ok (.again (.value [.object members (String.ofList key)]) after) :=
    readKey_eq_ok.mpr ⟨t, key, u, after, quote, name, colon, rfl⟩
  have turn : step strict (.object members []) s =
      .ok (.again (.value [.object members (String.ofList key)]) after) := by
    have found := Record.nextMember_eq_key.mp next
    cases members with
    | nil =>
      exact step_object_eq_ok.mpr
        ⟨_, _, found, .inr (.inl ⟨by decide, rfl, read (skipBlank_cons rfl t)⟩)⟩
    | cons m members =>
      obtain ⟨s', comma, quote⟩ := show ∃ s', skipBlank s = ',' :: s' ∧ skipBlank s' = '"' :: t
        from found
      exact step_object_eq_ok.mpr
        ⟨_, _, comma, .inr (.inr ⟨rfl, List.cons_ne_nil m members, read quote⟩)⟩
  rw [run_eq_resume, turn]
  rfl

/-- The object is at its end, or has another member. -/
theorem run_object_cases {members : List (String × Value)}
    (run : (loop strict).run (.object members []) s = .ok (w, rest)) :
    Record.nextMember members.isEmpty s = .ok (.close rest) ∧ w = .object members.reverse ∨
      ∃ t key u after, Record.nextMember members.isEmpty s = .ok (.key t) ∧
        Quoted.read strict t = .ok (key, u) ∧ readColon u = .ok after ∧
        (loop strict).run (.value [.object members (String.ofList key)]) after = .ok (w, rest) := by
  obtain ⟨turn, step, run⟩ := run_eq_ok.mp run
  obtain ⟨c, t, found, next⟩ := step_object_eq_ok.mp step
  obtain ⟨rfl, rfl⟩ | ⟨-, rfl, read⟩ | ⟨rfl, some, read⟩ := next
  · cases run
    exact .inl ⟨Record.nextMember_eq_close.mpr found, rfl⟩
  · obtain ⟨t', key, u, after, quote, name, colon, rfl⟩ := readKey_eq_ok.mp read
    rw [← found, skipBlank_skipBlank] at quote
    exact .inr ⟨t', key, u, after, Record.nextMember_eq_key.mpr quote, name, colon, run⟩
  · obtain ⟨t', key, u, after, quote, name, colon, rfl⟩ := readKey_eq_ok.mp read
    have later : members.isEmpty = false := by simpa using some
    rw [later]
    exact .inr ⟨t', key, u, after, Record.nextMember_eq_key.mpr ⟨t, found, quote⟩, name, colon, run⟩

theorem members_of_run {members : List (String × Value)}
    (run : (loop strict).run (.object members []) s = .ok (w, rest)) :
    ∃ ms, w = .object (members.reverse ++ ms) ∧ Members strict members.isEmpty s ms rest := by
  induction len : s.length using Nat.strongRecOn generalizing members s with
  | ind n ih =>
    obtain ⟨next, rfl⟩ | ⟨t, key, u, after, next, name, colon, run⟩ := run_object_cases run
    · exact ⟨[], by rw [List.append_nil], .close next⟩
    · obtain ⟨v, t', value, run⟩ := run_value_over run
      have := Record.nextMember_key_shorter next
      have := Quoted.read_shorter name
      have := readColon_shorter colon
      have := (document strict).shorter value
      obtain ⟨ms, rfl, others⟩ := ih t'.length (by omega) run rfl
      exact ⟨(String.ofList key, v) :: ms, by simp, .member next name colon value others⟩

theorem Members.run {first : Bool} {ms : List (String × Value)}
    (all : Members strict first s ms rest) {members : List (String × Value)}
    (isFirst : members.isEmpty = first) :
    (loop strict).run (.object members []) s = .ok (.object (members.reverse ++ ms), rest) := by
  induction all generalizing members with
  | close next =>
    rw [run_object_close (isFirst ▸ next), List.append_nil]
  | @member _ _ _ _ _ _ key v _ next name _ colon value _ ih =>
    have later := @ih ((String.ofList key, v) :: members) rfl
    rw [List.reverse_cons, List.append_assoc] at later
    rw [run_object_member (isFirst ▸ next) name colon, run_value_of value]
    exact later

theorem Leaf.opens {c : Char} (leaf : Leaf strict c s w rest) : Opens strict c s w rest := by
  cases leaf with
  | string token => exact .string token
  | number starts token => exact .number starts token
  | null word => exact .null word
  | yes word => exact .yes word
  | no word => exact .no word

/-- A document is read from its first character as the value that opens there. -/
theorem document_eq_ok :
    (document strict).run s = .ok (w, rest) ↔
      ∃ c t, skipBlank s = c :: t ∧ Opens strict c t w rest := by
  constructor
  · intro run
    obtain ⟨turn, step, run⟩ := run_eq_ok.mp run
    obtain ⟨c, t, found, value⟩ := step_value_eq_ok.mp step
    refine ⟨c, t, found, ?_⟩
    obtain ⟨rfl, rfl⟩ | ⟨rfl, rfl⟩ | ⟨v, rest', leaf, rfl⟩ := readValue_eq_ok.mp value
    · obtain ⟨vs, rfl, items⟩ := items_of_run run
      exact .list items
    · obtain ⟨ms, rfl, members⟩ := members_of_run run
      exact .object members
    · -- what is no list and no object ends the run
      cases run
      exact leaf.opens
  · rintro ⟨c, t, found, opens⟩
    have turn (turn : Turn State Value) (value : readValue strict [] c t = .ok turn)
        (resumed : resume strict turn = .ok (w, rest)) : (document strict).run s = .ok (w, rest) :=
      run_eq_ok.mpr ⟨turn, step_value_eq_ok.mpr ⟨c, t, found, value⟩, resumed⟩
    have single (leaf : Leaf strict c t w rest) : (document strict).run s = .ok (w, rest) :=
      turn _ (leaf.readValue []) rfl
    cases opens with
    | list items => exact turn _ rfl (items.run rfl)
    | object members => exact turn _ rfl (members.run rfl)
    | string token => exact single (.string token)
    | number starts token => exact single (.number starts (Literal.read_ok token _))
    | null word => exact single (.null word)
    | yes word => exact single (.yes word)
    | no word => exact single (.no word)

end

end Document

end Spindle.Json
