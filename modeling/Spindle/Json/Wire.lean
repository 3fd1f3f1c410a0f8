import Spindle.Json.Document

/-!
# Values on the wire

`Wire α` says how a value of `α` is read and written. Here are integers, truth values, strings,
optional values, lists and tags; records have a module of their own.
-/

namespace Spindle.Json

class Wire (α : Type) where
  reader : Reader α
  write : α → Value

def ofText (α : Type) [Wire α] (text : String) : Except Error α :=
  (Wire.reader : Reader α).whole text.toList

/-! ## A value of another type -/

/-- The kind of the value that starts with `c`. Words, numbers and strings are read to the end,
and their own faults come first. -/
def found (c : Char) (s : List Char) : Except Error Found :=
  if c = '[' then .ok .sequence
  else if c = '\x7b' then .ok .map
  else if c = '"' then
    match Quoted.read true s with
    | .error e => .error e
    | .ok (cs, _) => .ok (.string (String.ofList cs))
  else if startsNumber c then
    match Literal.read .endOfValue (c :: s) with
    | .error e => .error e
    | .ok (l, _) =>
      match l.number with
      | .error e => .error e
      | .ok (.integer z) => .ok (.integer z)
      | .ok (.float x) => .ok (.float x)
  else if c = 'n' then
    match readWord ['u', 'l', 'l'] s with
    | .error e => .error e
    | .ok _ => .ok .null
  else if c = 't' then
    match readWord ['r', 'u', 'e'] s with
    | .error e => .error e
    | .ok _ => .ok (.boolean true)
  else if c = 'f' then
    match readWord ['a', 'l', 's', 'e'] s with
    | .error e => .error e
    | .ok _ => .ok (.boolean false)
  else .error .expectedValue

/-- What is wrong with the value that starts with `c` when `expected` was due. -/
def mismatch (expected : String) (c : Char) (s : List Char) : Error :=
  match found c s with
  | .error e => e
  | .ok f => .wrongType f expected

/-! ## Integers -/

/-- An integer that `convert` accepts, at its first character `c`. -/
def readInteger (expected : String) (convert : Int → Option α) (c : Char) (s : List Char) :
    Except Error (α × List Char) :=
  if startsNumber c then
    match Literal.read .endOfValue (c :: s) with
    | .error e => .error e
    | .ok (l, rest) =>
      match l.number with
      | .error e => .error e
      | .ok (.float x) => .error (.wrongType (.float x) expected)
      | .ok (.integer z) =>
        match convert z with
        | none => .error (.wrongValue (.integer z) expected)
        | some v => .ok (v, rest)
  else .error (mismatch expected c s)

section
variable {expected : String} {convert : Int → Option α} {c : Char} {s rest : List Char} {v : α}

theorem readInteger_eq_ok :
    readInteger expected convert c s = .ok (v, rest) ↔
      startsNumber c = true ∧ ∃ l z, Literal.read .endOfValue (c :: s) = .ok (l, rest) ∧
        l.number = .ok (.integer z) ∧ convert z = some v := by
  rw [readInteger]
  grind

theorem readInteger_le (read : readInteger expected convert c s = .ok (v, rest)) :
    rest.length ≤ s.length := by
  obtain ⟨-, l, z, token, -⟩ := readInteger_eq_ok.mp read
  exact Nat.le_of_lt_succ (Literal.read_shorter token)

end

def integer (expected : String) (convert : Int → Option α) : Reader α :=
  .afterBlanks (readInteger expected convert) readInteger_le

instance : Wire UInt64 where
  reader := integer "u64" fun z => if 0 ≤ z ∧ z.toNat < UInt64.size then some z.toNat.toUInt64 else none
  write n := .ofInt n.toNat

instance : Wire UInt32 where
  reader := integer "u32" fun z => if 0 ≤ z ∧ z.toNat < UInt32.size then some z.toNat.toUInt32 else none
  write n := .ofInt n.toNat

instance : Wire Int32 where
  reader := integer "i32" fun z =>
    if Int32.minValue.toInt ≤ z ∧ z ≤ Int32.maxValue.toInt then some z.toInt32 else none
  write n := .ofInt n.toInt

/-! ## Truth values and strings -/

def readBoolean (c : Char) (s : List Char) : Except Error (Bool × List Char) :=
  if c = 't' then
    match readWord ['r', 'u', 'e'] s with
    | .error e => .error e
    | .ok rest => .ok (true, rest)
  else if c = 'f' then
    match readWord ['a', 'l', 's', 'e'] s with
    | .error e => .error e
    | .ok rest => .ok (false, rest)
  else .error (mismatch "a boolean" c s)

section
variable {c : Char} {s rest : List Char} {b : Bool}

theorem readBoolean_eq_ok :
    readBoolean c s = .ok (b, rest) ↔
      c = 't' ∧ readWord ['r', 'u', 'e'] s = .ok rest ∧ b = true ∨
      c = 'f' ∧ readWord ['a', 'l', 's', 'e'] s = .ok rest ∧ b = false := by
  rw [readBoolean]
  grind

theorem readBoolean_le (read : readBoolean c s = .ok (b, rest)) : rest.length ≤ s.length := by
  obtain ⟨-, word, -⟩ | ⟨-, word, -⟩ := readBoolean_eq_ok.mp read
  · exact readWord_le word
  · exact readWord_le word

end

instance : Wire Bool where
  reader := .afterBlanks readBoolean readBoolean_le
  write := .boolean

def readString (c : Char) (s : List Char) : Except Error (String × List Char) :=
  if c = '"' then
    match Quoted.read true s with
    | .error e => .error e
    | .ok (cs, rest) => .ok (String.ofList cs, rest)
  else .error (mismatch "a string" c s)

section
variable {c : Char} {s rest : List Char} {v : String}

theorem readString_eq_ok :
    readString c s = .ok (v, rest) ↔
      c = '"' ∧ ∃ cs, Quoted.read true s = .ok (cs, rest) ∧ v = String.ofList cs := by
  rw [readString]
  grind

theorem readString_le (read : readString c s = .ok (v, rest)) : rest.length ≤ s.length := by
  obtain ⟨-, cs, token, -⟩ := readString_eq_ok.mp read
  exact Nat.le_of_lt (Quoted.read_shorter token)

end

instance : Wire String where
  reader := .afterBlanks readString readString_le
  write := .string

/-! ## Null -/

/-- `null` is no value; all else is read as a value. -/
def readOption (r : Reader α) (s : List Char) : Except Error (Option α × List Char) :=
  match skipBlank s with
  | 'n' :: s =>
    match readWord ['u', 'l', 'l'] s with
    | .error e => .error e
    | .ok rest => .ok (none, rest)
  | s =>
    match r.run s with
    | .error e => .error e
    | .ok (v, rest) => .ok (some v, rest)

section
variable {r : Reader α} {s rest : List Char} {v : Option α}

theorem readOption_eq_ok :
    readOption r s = .ok (v, rest) ↔
      (∃ t, skipBlank s = 'n' :: t ∧ readWord ['u', 'l', 'l'] t = .ok rest ∧ v = none) ∨
      (skipBlank s).head? ≠ some 'n' ∧ ∃ w, r.run (skipBlank s) = .ok (w, rest) ∧ v = some w := by
  rw [readOption]
  grind [List.head?_eq_some_iff]

theorem readOption_shorter (read : readOption r s = .ok (v, rest)) : rest.length < s.length := by
  obtain ⟨t, found, word, -⟩ | ⟨-, w, value, -⟩ := readOption_eq_ok.mp read
  · exact Nat.lt_of_le_of_lt (readWord_le word) (length_lt_of_skipBlank found)
  · exact Nat.lt_of_lt_of_le (r.shorter value) (length_skipBlank_le s)

end

instance [Wire α] : Wire (Option α) where
  reader := { run := readOption Wire.reader, shorter := readOption_shorter }
  write
    | none => .null
    | some v => Wire.write v

def readUnit (c : Char) (s : List Char) : Except Error (Unit × List Char) :=
  if c = 'n' then
    match readWord ['u', 'l', 'l'] s with
    | .error e => .error e
    | .ok rest => .ok ((), rest)
  else .error (mismatch "unit" c s)

section
variable {c : Char} {s rest : List Char} {v : Unit}

theorem readUnit_eq_ok :
    readUnit c s = .ok (v, rest) ↔ c = 'n' ∧ readWord ['u', 'l', 'l'] s = .ok rest := by
  rw [readUnit]
  grind

theorem readUnit_le (read : readUnit c s = .ok (v, rest)) : rest.length ≤ s.length :=
  readWord_le (readUnit_eq_ok.mp read).2

end

def unit : Reader Unit := .afterBlanks readUnit readUnit_le

/-! ## Lists -/

/-- What follows in a list: an item that starts at the text given, or the end. -/
inductive Next where
  | item (s : List Char)
  | close (rest : List Char)

/-- Looks for an item or the closing bracket; `first` when no item has been read. -/
def nextItem (first : Bool) (s : List Char) : Except Error Next :=
  match skipBlank s with
  | [] => .error .endOfList
  | c :: s =>
    if c = ']' then .ok (.close s)
    else if first then .ok (.item (c :: s))
    else if c = ',' then
      match skipBlank s with
      | [] => .error .endOfValue
      | d :: s => if d = ']' then .error .trailingComma else .ok (.item (d :: s))
    else .error .expectedListEnd

section
variable {first : Bool} {s t rest : List Char}

theorem nextItem_eq_close : nextItem first s = .ok (.close rest) ↔ skipBlank s = ']' :: rest := by
  constructor
  · intro next
    unfold nextItem at next
    split at next
    · cases next
    · rename_i c t found
      split at next
      · rename_i close
        cases next
        rw [found, close]
      · -- what is not the bracket is an item or a fault
        repeat' split at next
        all_goals cases next
  · intro found
    simp [nextItem, found]

/-- An item starts at its first character that is not blank, and after a comma unless it is the
first. -/
theorem nextItem_eq_item :
    nextItem first s = .ok (.item t) ↔
      ∃ c u, t = c :: u ∧ c ≠ ']' ∧
        if first then skipBlank s = t else ∃ s', skipBlank s = ',' :: s' ∧ skipBlank s' = t := by
  constructor
  · intro next
    unfold nextItem at next
    split at next
    · cases next
    · rename_i c u found
      split at next
      · cases next
      · rename_i notClose
        split at next
        · rename_i isFirst
          cases next
          exact ⟨c, u, rfl, notClose, by rw [if_pos isFirst, found]⟩
        · rename_i later
          split at next
          · rename_i comma
            split at next
            · cases next
            · rename_i d u' found'
              split at next
              · cases next
              · rename_i notClose'
                cases next
                exact ⟨d, u', rfl, notClose', by rw [if_neg later]; exact ⟨u, by rw [found, comma],
                  found'⟩⟩
          · cases next
  · rintro ⟨c, u, rfl, notClose, found⟩
    cases first with
    | true => simp [nextItem, show skipBlank s = c :: u from found, notClose]
    | false =>
      obtain ⟨s', comma, found⟩ := show ∃ s', _ from found
      simp [nextItem, comma, found, notClose]

theorem nextItem_item_le (next : nextItem first s = .ok (.item t)) : t.length ≤ s.length := by
  obtain ⟨c, u, rfl, -, found⟩ := nextItem_eq_item.mp next
  cases first with
  | true => exact length_lt_of_skipBlank (show skipBlank s = c :: u from found)
  | false =>
    obtain ⟨s', comma, found⟩ := show ∃ s', skipBlank s = ',' :: s' ∧ skipBlank s' = c :: u from found
    have := length_lt_of_skipBlank comma
    have := length_lt_of_skipBlank found
    simp only [List.length_cons]
    omega

theorem nextItem_close_shorter (next : nextItem first s = .ok (.close rest)) :
    rest.length < s.length := length_lt_of_skipBlank (nextItem_eq_close.mp next)

end

/-- One more item; those read so far are in reverse. -/
def readItem (item : Reader α) (read : List α) (s : List Char) :
    Except Error (Turn (List α) (List α)) :=
  match nextItem read.isEmpty s with
  | .error e => .error e
  | .ok (.close rest) => .ok (.done read.reverse rest)
  | .ok (.item s) =>
    match item.run s with
    | .error e => .error e
    | .ok (v, rest) => .ok (.again (v :: read) rest)

section
variable {item : Reader α} {read : List α} {s : List Char} {turn : Turn (List α) (List α)}

theorem readItem_eq_ok :
    readItem item read s = .ok turn ↔
      (∃ rest, nextItem read.isEmpty s = .ok (.close rest) ∧ turn = .done read.reverse rest) ∨
      ∃ t v rest, nextItem read.isEmpty s = .ok (.item t) ∧ item.run t = .ok (v, rest) ∧
        turn = .again (v :: read) rest := by
  rw [readItem]
  grind

theorem readItem_shorter (step : readItem item read s = .ok turn) :
    turn.rest.length < s.length := by
  obtain ⟨rest, next, rfl⟩ | ⟨t, v, rest, next, value, rfl⟩ := readItem_eq_ok.mp step
  · exact nextItem_close_shorter next
  · exact Nat.lt_of_lt_of_le (item.shorter value) (nextItem_item_le next)

end

def items (item : Reader α) : Loop (List α) (List α) where
  step := readItem item
  shorter := readItem_shorter

/-- The list ends, or has another item. -/
theorem run_items_eq_ok {item : Reader α} {read vs : List α} {s rest : List Char} :
    (items item).run read s = .ok (vs, rest) ↔
      nextItem read.isEmpty s = .ok (.close rest) ∧ vs = read.reverse ∨
      ∃ t v u, nextItem read.isEmpty s = .ok (.item t) ∧ item.run t = .ok (v, u) ∧
        (items item).run (v :: read) u = .ok (vs, rest) := by
  rw [Loop.run_eq_ok]
  constructor
  · rintro (done | ⟨_, u, step, run⟩)
    · obtain ⟨_, close, ⟨⟩⟩ | ⟨_, _, _, -, -, ⟨⟩⟩ := readItem_eq_ok.mp done
      exact .inl ⟨close, rfl⟩
    · obtain ⟨_, -, ⟨⟩⟩ | ⟨t, v, _, next, value, ⟨⟩⟩ := readItem_eq_ok.mp step
      exact .inr ⟨t, v, u, next, value, run⟩
  · rintro (⟨close, rfl⟩ | ⟨t, v, u, next, value, run⟩)
    · exact .inl (readItem_eq_ok.mpr (.inl ⟨rest, close, rfl⟩))
    · exact .inr ⟨_, u, readItem_eq_ok.mpr (.inr ⟨t, v, u, next, value, rfl⟩), run⟩

def readList (item : Reader α) (c : Char) (s : List Char) : Except Error (List α × List Char) :=
  if c = '[' then (items item).run [] s else .error (mismatch "a sequence" c s)

section
variable {item : Reader α} {c : Char} {s rest : List Char} {vs : List α}

theorem readList_eq_ok :
    readList item c s = .ok (vs, rest) ↔ c = '[' ∧ (items item).run [] s = .ok (vs, rest) := by
  rw [readList]
  grind

theorem readList_le (read : readList item c s = .ok (vs, rest)) : rest.length ≤ s.length :=
  Nat.le_of_lt ((items item).run_shorter (readList_eq_ok.mp read).2)

end

instance [Wire α] : Wire (List α) where
  reader := .afterBlanks (readList Wire.reader) readList_le
  write vs := .array (vs.map Wire.write)

/-! ## Tags -/

structure Tags (α : Type) where
  /-- The tags and what they stand for, in the order in which a message lists them. -/
  listed : List (String × α)
  /-- What every other tag stands for, if it is accepted. -/
  other : Option α

namespace Tags

def ofTag (t : Tags α) (tag : String) : Except Error α :=
  match t.listed.lookup tag with
  | some v => .ok v
  | none =>
    match t.other with
    | some v => .ok v
    | none => .error (.unknownTag tag (t.listed.map Prod.fst))

/-- The rest of a tag that is written as an object with the tag for its one key. Behind the brace only
a key can stand: an end there cuts off the object and not a value, and what is no string is not a
key, whatever value it would be. An object without a key lacks a value. -/
def readKeyed (t : Tags α) (s : List Char) : Except Error (α × List Char) :=
  match skipBlank s with
  | [] => .error .endOfObject
  | '\x7d' :: _ => .error .expectedValue
  | '"' :: s =>
    match Quoted.read true s with
    | .error e => .error e
    | .ok (tag, s) =>
      match t.ofTag (String.ofList tag) with
      | .error e => .error e
      | .ok v =>
        match Document.readColon s with
        | .error e => .error e
        | .ok s =>
          match unit.run s with
          | .error e => .error e
          | .ok ((), s) =>
            match skipBlank s with
            | [] => .error .endOfObject
            | '\x7d' :: rest => .ok (v, rest)
            | _ => .error .expectedValue
  | _ => .error .keyNotString

def read (t : Tags α) (c : Char) (s : List Char) : Except Error (α × List Char) :=
  if c = '"' then
    match Quoted.read true s with
    | .error e => .error e
    | .ok (cs, rest) =>
      match t.ofTag (String.ofList cs) with
      | .error e => .error e
      | .ok v => .ok (v, rest)
  else if c = '\x7b' then t.readKeyed s
  else .error .expectedValue

section
variable {t : Tags α} {c : Char} {s rest : List Char} {v : α}

theorem readKeyed_eq_ok :
    t.readKeyed s = .ok (v, rest) ↔
      ∃ s₁ tag s₂ s₃ s₄, skipBlank s = '"' :: s₁ ∧ Quoted.read true s₁ = .ok (tag, s₂) ∧
        t.ofTag (String.ofList tag) = .ok v ∧ Document.readColon s₂ = .ok s₃ ∧
        unit.run s₃ = .ok ((), s₄) ∧ skipBlank s₄ = '\x7d' :: rest := by
  constructor
  · fun_cases readKeyed t s with
    | case8 s₁ found tag s₂ name v known s₃ colon s₄ null rest close =>
      rintro ⟨⟩
      exact ⟨s₁, tag, s₂, s₃, s₄, found, name, known, colon, null, close⟩
    | case1 | case2 | case3 | case4 | case5 | case6 | case7 | case9 | case10 => nofun
  · rintro ⟨s₁, tag, s₂, s₃, s₄, found, name, known, colon, null, close⟩
    simp only [readKeyed, found, name, known, colon, null, close]

theorem readKeyed_le (read : t.readKeyed s = .ok (v, rest)) : rest.length ≤ s.length := by
  obtain ⟨s₁, tag, s₂, s₃, s₄, found, name, -, colon, null, close⟩ := readKeyed_eq_ok.mp read
  have := length_lt_of_skipBlank found
  have := Quoted.read_shorter name
  have := Document.readColon_shorter colon
  have := unit.shorter null
  have := length_lt_of_skipBlank close
  omega

theorem read_eq_ok :
    t.read c s = .ok (v, rest) ↔
      (c = '"' ∧ ∃ tag, Quoted.read true s = .ok (tag, rest) ∧ t.ofTag (String.ofList tag) = .ok v) ∨
      c = '\x7b' ∧ t.readKeyed s = .ok (v, rest) := by
  rw [read]
  grind

theorem read_le (read : t.read c s = .ok (v, rest)) : rest.length ≤ s.length := by
  obtain ⟨-, tag, token, -⟩ | ⟨-, keyed⟩ := read_eq_ok.mp read
  · exact Nat.le_of_lt (Quoted.read_shorter token)
  · exact readKeyed_le keyed

end

def reader (t : Tags α) : Reader α := .afterBlanks t.read read_le

end Tags

end Spindle.Json
