import Spindle.Json.Value

/-!
# Reading any value

Values of any depth are read with an explicit stack of open lists and objects. Strict reading
pairs surrogate escapes; lenient reading does not, and is how a value that nobody asked for is
passed over.
-/

namespace Spindle.Json

/-- The rest of `null`, `true` or `false`. -/
def readWord (word s : List Char) : Except Error (List Char) :=
  match word, s with
  | [], s => .ok s
  | _ :: _, [] => .error .endOfValue
  | w :: word, c :: s => if c = w then readWord word s else .error .expectedWord

theorem readWord_le {word s rest : List Char} (h : readWord word s = .ok rest) :
    rest.length ≤ s.length := by
  induction word generalizing s with
  | nil =>
    cases h
    exact Nat.le_refl _
  | cons w word ih =>
    cases s with
    | nil => cases h
    | cons c s =>
      rw [readWord] at h
      split at h
      · have := ih h
        simp only [List.length_cons]
        omega
      · cases h

def startsNumber (c : Char) : Bool := c = '-' || c.isDigit

namespace Document

/-- A list or object that encloses the value being read; its items are in reverse. -/
inductive Frame where
  | list (items : List Value)
  | object (members : List (String × Value)) (key : String)

inductive State where
  | value (stack : List Frame)
  | list (items : List Value) (stack : List Frame)
  | object (members : List (String × Value)) (stack : List Frame)

/-- Puts a finished value into what encloses it. -/
def close (v : Value) (stack : List Frame) (rest : List Char) : Turn State Value :=
  match stack with
  | [] => .done v rest
  | .list items :: stack => .again (.list (v :: items) stack) rest
  | .object members key :: stack => .again (.object ((key, v) :: members) stack) rest

def readValue (strict : Bool) (stack : List Frame) (c : Char) (s : List Char) :
    Except Error (Turn State Value) :=
  if c = '[' then .ok (.again (.list [] stack) s)
  else if c = '\x7b' then .ok (.again (.object [] stack) s)
  else if c = '"' then
    match Quoted.read strict s with
    | .error e => .error e
    | .ok (cs, rest) => .ok (close (.string (String.ofList cs)) stack rest)
  else if startsNumber c then
    match Literal.read (if strict then .endOfValue else .invalidNumber) (c :: s) with
    | .error e => .error e
    | .ok (l, rest) => .ok (close (.number l) stack rest)
  else if c = 'n' then
    match readWord ['u', 'l', 'l'] s with
    | .error e => .error e
    | .ok rest => .ok (close .null stack rest)
  else if c = 't' then
    match readWord ['r', 'u', 'e'] s with
    | .error e => .error e
    | .ok rest => .ok (close (.boolean true) stack rest)
  else if c = 'f' then
    match readWord ['a', 'l', 's', 'e'] s with
    | .error e => .error e
    | .ok rest => .ok (close (.boolean false) stack rest)
  else .error .expectedValue

def readColon (s : List Char) : Except Error (List Char) :=
  match skipBlank s with
  | [] => .error .endOfObject
  | ':' :: rest => .ok rest
  | _ => .error .expectedColon

def readKey (strict : Bool) (members : List (String × Value)) (stack : List Frame)
    (s : List Char) : Except Error (Turn State Value) :=
  match skipBlank s with
  | [] => .error .endOfObject
  | '"' :: s =>
    match Quoted.read strict s with
    | .error e => .error e
    | .ok (key, s) =>
      match readColon s with
      | .error e => .error e
      | .ok rest => .ok (.again (.value (.object members (String.ofList key) :: stack)) rest)
  | _ => .error .keyNotString

def step (strict : Bool) (state : State) (s : List Char) : Except Error (Turn State Value) :=
  match state with
  | .value stack =>
    match skipBlank s with
    | [] => .error .endOfValue
    | c :: s => readValue strict stack c s
  | .list items stack =>
    match skipBlank s with
    | [] => .error .endOfList
    | c :: s =>
      if c = ']' then .ok (close (.array items.reverse) stack s)
      else if items.isEmpty then readValue strict (.list [] :: stack) c s
      else if c = ',' then .ok (.again (.value (.list items :: stack)) s)
      else .error .expectedListEnd
  | .object members stack =>
    match skipBlank s with
    | [] => .error .endOfObject
    | c :: s =>
      if c = '\x7d' then .ok (close (.object members.reverse) stack s)
      else if members.isEmpty then readKey strict [] stack (c :: s)
      else if c = ',' then readKey strict members stack s
      else .error .expectedObjectEnd

/-! ### What a step takes -/

/-- A value without parts is read from its first character and what follows it. -/
inductive Leaf (strict : Bool) : Char → List Char → Value → List Char → Prop where
  | string {s cs rest : List Char} (token : Quoted.read strict s = .ok (cs, rest)) :
      Leaf strict '"' s (.string (String.ofList cs)) rest
  | number {c : Char} {s rest : List Char} {l : Literal} (starts : startsNumber c = true)
      (token : Literal.read (if strict then .endOfValue else .invalidNumber) (c :: s) =
        .ok (l, rest)) :
      Leaf strict c s (.number l) rest
  | null {s rest : List Char} (word : readWord ['u', 'l', 'l'] s = .ok rest) :
      Leaf strict 'n' s .null rest
  | yes {s rest : List Char} (word : readWord ['r', 'u', 'e'] s = .ok rest) :
      Leaf strict 't' s (.boolean true) rest
  | no {s rest : List Char} (word : readWord ['a', 'l', 's', 'e'] s = .ok rest) :
      Leaf strict 'f' s (.boolean false) rest

section
variable {strict : Bool} {stack : List Frame} {items : List Value}
  {members : List (String × Value)} {v : Value} {c : Char} {s rest : List Char}
  {turn : Turn State Value}

theorem Leaf.readValue (leaf : Leaf strict c s v rest) (stack : List Frame) :
    readValue strict stack c s = .ok (close v stack rest) := by
  cases leaf with
  | string token =>
    rw [Document.readValue, if_neg (by decide), if_neg (by decide), if_pos rfl, token]
  | number starts token =>
    have notList : c ≠ '[' := by rintro rfl; cases starts
    have notObject : c ≠ '\x7b' := by rintro rfl; cases starts
    have notQuote : c ≠ '"' := by rintro rfl; cases starts
    rw [Document.readValue, if_neg notList, if_neg notObject, if_neg notQuote, if_pos starts, token]
  | null word => simp [Document.readValue, startsNumber, word]
  | yes word => simp [Document.readValue, startsNumber, word]
  | no word => simp [Document.readValue, startsNumber, word]

theorem readValue_eq_ok :
    readValue strict stack c s = .ok turn ↔
      c = '[' ∧ turn = .again (.list [] stack) s ∨
      c = '\x7b' ∧ turn = .again (.object [] stack) s ∨
      ∃ v rest, Leaf strict c s v rest ∧ turn = close v stack rest := by
  constructor
  · fun_cases readValue strict stack c s with
    | case1 list =>
      rintro ⟨⟩
      exact .inl ⟨list, rfl⟩
    | case2 _ object =>
      rintro ⟨⟩
      exact .inr (.inl ⟨object, rfl⟩)
    | case4 _ _ quote _ _ token =>
      rintro ⟨⟩
      exact .inr (.inr ⟨_, _, quote ▸ .string token, rfl⟩)
    | case6 _ _ _ starts _ _ token =>
      rintro ⟨⟩
      exact .inr (.inr ⟨_, _, .number starts token, rfl⟩)
    | case8 _ _ _ _ null _ word =>
      rintro ⟨⟩
      exact .inr (.inr ⟨_, _, null ▸ .null word, rfl⟩)
    | case10 _ _ _ _ _ yes _ word =>
      rintro ⟨⟩
      exact .inr (.inr ⟨_, _, yes ▸ .yes word, rfl⟩)
    | case12 _ _ _ _ _ _ no _ word =>
      rintro ⟨⟩
      exact .inr (.inr ⟨_, _, no ▸ .no word, rfl⟩)
    | case3 | case5 | case7 | case9 | case11 | case13 => nofun
  · rintro (⟨rfl, rfl⟩ | ⟨rfl, rfl⟩ | ⟨v, rest, leaf, rfl⟩)
    · rfl
    · rfl
    · exact leaf.readValue stack

theorem readKey_eq_ok :
    readKey strict members stack s = .ok turn ↔
      ∃ t key u after, skipBlank s = '"' :: t ∧ Quoted.read strict t = .ok (key, u) ∧
        readColon u = .ok after ∧
        turn = .again (.value (.object members (String.ofList key) :: stack)) after := by
  constructor
  · fun_cases readKey strict members stack s with
    | case4 t found key u name after colon =>
      rintro ⟨⟩
      exact ⟨t, key, u, after, found, name, colon, rfl⟩
    | case1 | case2 | case3 | case5 => nofun
  · rintro ⟨t, key, u, after, found, name, colon, rfl⟩
    simp only [readKey, found, name, colon]

theorem step_value_eq_ok :
    step strict (.value stack) s = .ok turn ↔
      ∃ c t, skipBlank s = c :: t ∧ readValue strict stack c t = .ok turn := by
  rw [step]
  cases skipBlank s <;> grind

theorem step_list_eq_ok :
    step strict (.list items stack) s = .ok turn ↔
      ∃ c t, skipBlank s = c :: t ∧
        (c = ']' ∧ turn = close (.array items.reverse) stack t ∨
        c ≠ ']' ∧ items = [] ∧ readValue strict (.list [] :: stack) c t = .ok turn ∨
        c = ',' ∧ items ≠ [] ∧ turn = .again (.value (.list items :: stack)) t) := by
  rw [step]
  cases skipBlank s with
  | nil => simp
  | cons c t =>
    cases items <;> grind

theorem step_object_eq_ok :
    step strict (.object members stack) s = .ok turn ↔
      ∃ c t, skipBlank s = c :: t ∧
        (c = '\x7d' ∧ turn = close (.object members.reverse) stack t ∨
        c ≠ '\x7d' ∧ members = [] ∧ readKey strict [] stack (c :: t) = .ok turn ∨
        c = ',' ∧ members ≠ [] ∧ readKey strict members stack t = .ok turn) := by
  rw [step]
  cases skipBlank s with
  | nil => simp
  | cons c t =>
    cases members <;> grind

end

/-! ### What is left is shorter -/

theorem rest_close (v : Value) (stack : List Frame) (rest : List Char) :
    (close v stack rest).rest = rest := by
  unfold close
  split <;> rfl

section
variable {strict : Bool} {stack : List Frame} {members : List (String × Value)} {v : Value}
  {c : Char} {s rest : List Char} {turn : Turn State Value}

theorem Leaf.le (leaf : Leaf strict c s v rest) : rest.length ≤ s.length := by
  cases leaf with
  | string token => exact Nat.le_of_lt (Quoted.read_shorter token)
  | number _ token => exact Nat.le_of_lt_succ (Literal.read_shorter token)
  | null word | yes word | no word => exact readWord_le word

theorem readValue_le (h : readValue strict stack c s = .ok turn) :
    turn.rest.length ≤ s.length := by
  obtain ⟨-, rfl⟩ | ⟨-, rfl⟩ | ⟨v, rest, leaf, rfl⟩ := readValue_eq_ok.mp h
  · exact Nat.le_refl _
  · exact Nat.le_refl _
  · rw [rest_close]
    exact leaf.le

theorem readColon_shorter (h : readColon s = .ok rest) : rest.length < s.length := by
  unfold readColon at h
  split at h
  · cases h
  · cases h
    exact length_lt_of_skipBlank ‹_›
  · cases h

theorem readKey_shorter (h : readKey strict members stack s = .ok turn) :
    turn.rest.length < s.length := by
  obtain ⟨t, key, u, after, found, name, colon, rfl⟩ := readKey_eq_ok.mp h
  have := length_lt_of_skipBlank found
  have := Quoted.read_shorter name
  have := readColon_shorter colon
  simp only [Turn.rest]
  omega

theorem step_shorter {state : State} (h : step strict state s = .ok turn) :
    turn.rest.length < s.length := by
  cases state with
  | value stack =>
    obtain ⟨c, t, found, value⟩ := step_value_eq_ok.mp h
    exact Nat.lt_of_le_of_lt (readValue_le value) (length_lt_of_skipBlank found)
  | list items stack =>
    obtain ⟨c, t, found, next⟩ := step_list_eq_ok.mp h
    have less := length_lt_of_skipBlank found
    obtain ⟨-, rfl⟩ | ⟨-, -, value⟩ | ⟨-, -, rfl⟩ := next
    · rwa [rest_close]
    · exact Nat.lt_of_le_of_lt (readValue_le value) less
    · exact less
  | object members stack =>
    obtain ⟨c, t, found, next⟩ := step_object_eq_ok.mp h
    have less := length_lt_of_skipBlank found
    obtain ⟨-, rfl⟩ | ⟨-, -, key⟩ | ⟨-, -, key⟩ := next
    · rwa [rest_close]
    · have := readKey_shorter key
      simp only [List.length_cons] at this
      omega
    · exact Nat.lt_trans (readKey_shorter key) less

end

def loop (strict : Bool) : Loop State Value where
  step := step strict
  shorter := step_shorter

end Document

def document (strict : Bool) : Reader Value where
  run := (Document.loop strict).run (.value [])
  shorter := (Document.loop strict).run_shorter

/-- Passes over any value. -/
def skipped : Reader Unit := (document false).map fun _ => ()

end Spindle.Json
