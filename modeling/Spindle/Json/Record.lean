import Spindle.Json.Wire

/-!
# Records

A record is described once, by its fields in order. It is written as an object; it is read from
an object with its members in any order and unknown members passed over, or from an array of its
fields.
-/

namespace Spindle.Json

/-- One component for every type of a list. -/
def Tuple (f : Type → Type) : List Type → Type
  | [] => Unit
  | α :: αs => f α × Tuple f αs

structure Field (α : Type) where
  key : String
  reader : Reader α
  write : α → Value
  /-- What the field holds when an object lacks its key. -/
  absent : Option α
  /-- What the field holds when an array ends before it. -/
  beyond : Option α

namespace Field

def required [Wire α] (key : String) : Field α :=
  ⟨key, Wire.reader, Wire.write, none, none⟩

def defaulted [Wire α] (key : String) (default : α) : Field α :=
  ⟨key, Wire.reader, Wire.write, some default, some default⟩

/-- A field that an object may lack but an array may not. -/
def nullable [Wire α] (key : String) : Field (Option α) :=
  ⟨key, Wire.reader, Wire.write, some none, none⟩

end Field

abbrev Fields (αs : List Type) : Type := Tuple Field αs

/-- The values of the fields read so far. -/
abbrev Slots (αs : List Type) : Type := Tuple Option αs

abbrev Values (αs : List Type) : Type := Tuple id αs

/-- What a key of an object asks for. -/
inductive Placement (β : Type) where
  | unknown
  | taken
  | free (reader : Reader β)

namespace Placement

def map (f : β → γ) : Placement β → Placement γ
  | unknown => unknown
  | taken => taken
  | free r => free (r.map f)

end Placement

namespace Slots

def empty : (αs : List Type) → Slots αs
  | [] => ()
  | _ :: αs => (none, empty αs)

end Slots

namespace Fields

def keys : {αs : List Type} → Fields αs → List String
  | [], () => []
  | _ :: _, (f, fs) => f.key :: keys fs

def place : {αs : List Type} → Fields αs → Slots αs → String → Placement (Slots αs)
  | [], (), (), _ => .unknown
  | _ :: _, (f, fs), (slot, slots), key =>
    if f.key = key then
      match slot with
      | some _ => .taken
      | none => .free (f.reader.map fun v => (some v, slots))
    else (place fs slots key).map fun slots => (slot, slots)

/-- The values of a finished object. The first required field without a value is missing. -/
def complete : {αs : List Type} → Fields αs → Slots αs → Except Error (Values αs)
  | [], (), () => .ok ()
  | _ :: _, (f, fs), (slot, slots) =>
    match slot.or f.absent with
    | none => .error (.missingField f.key)
    | some v =>
      match complete fs slots with
      | .error e => .error e
      | .ok vs => .ok (v, vs)

/-- The values of fields beyond the end of an array, the first of which is the `i`th. -/
def beyond : {αs : List Type} → Nat → Fields αs → Except Nat (Values αs)
  | [], _, () => .ok ()
  | _ :: _, i, (f, fs) =>
    match f.beyond with
    | none => .error i
    | some v =>
      match beyond (i + 1) fs with
      | .error i => .error i
      | .ok vs => .ok (v, vs)

def members : {αs : List Type} → Fields αs → Values αs → List (String × Value)
  | [], (), () => []
  | _ :: _, (f, fs), (v, vs) => (f.key, f.write v) :: members fs vs

end Fields

def Arrow : List Type → Type → Type
  | [], S => S
  | α :: αs, S => α → Arrow αs S

namespace Values

def apply : {αs : List Type} → Arrow αs S → Values αs → S
  | [], s, () => s
  | _ :: _, f, (v, vs) => apply (f v) vs

end Values

structure Record (S : Type) (αs : List Type) where
  name : String
  fields : Fields αs
  build : Arrow αs S
  parts : S → Values αs

namespace Record

/-! ## Array form -/

/-- After the last field nothing but the closing bracket may stand. -/
def endArray (s : List Char) : Except Error (List Char) :=
  match skipBlank s with
  | [] => .error .endOfList
  | ']' :: rest => .ok rest
  | ',' :: s =>
    match skipBlank s with
    | ']' :: _ => .error .trailingComma
    | _ => .error .trailingCharacters
  | _ => .error .trailingCharacters

/-- The fields from the `i`th on, of a record with the given name and number of fields. -/
def readArray (name : String) (size : Nat) :
    {αs : List Type} → Nat → Fields αs → List Char → Except Error (Values αs × List Char)
  | [], _, (), s =>
    match endArray s with
    | .error e => .error e
    | .ok rest => .ok ((), rest)
  | α :: αs, i, (f, fs), s =>
    match nextItem (i = 0) s with
    | .error e => .error e
    | .ok (.close rest) =>
      match @Fields.beyond (α :: αs) i (f, fs) with
      | .error i => .error (.wrongLength i name size)
      | .ok vs => .ok (vs, rest)
    | .ok (.item s) =>
      match f.reader.run s with
      | .error e => .error e
      | .ok (v, s) =>
        match readArray name size (i + 1) fs s with
        | .error e => .error e
        | .ok (vs, rest) => .ok ((v, vs), rest)

section
variable {name : String} {size i : Nat} {s rest : List Char}

theorem endArray_eq_ok : endArray s = .ok rest ↔ skipBlank s = ']' :: rest := by
  constructor
  · intro ends
    unfold endArray at ends
    split at ends
    · cases ends
    · cases ends
      assumption
    · split at ends <;> cases ends
    · cases ends
  · intro found
    simp [endArray, found]

theorem readArray_nil {fs : Fields []} {vs : Values []} :
    readArray name size i fs s = .ok (vs, rest) ↔ skipBlank s = ']' :: rest := by
  obtain ⟨⟩ := fs
  rw [← endArray_eq_ok, readArray]
  cases endArray s with
  | error e => simp
  | ok u =>
    constructor
    · rintro ⟨⟩
      rfl
    · rintro ⟨⟩
      rfl

theorem readArray_cons {α : Type} {αs : List Type} {f : Field α} {fs : Fields αs} {v : α}
    {vs : Values αs} :
    @readArray name size (α :: αs) i (f, fs) s = .ok ((v, vs), rest) ↔
      nextItem (i = 0) s = .ok (.close rest) ∧ @Fields.beyond (α :: αs) i (f, fs) = .ok (v, vs) ∨
      ∃ t u, nextItem (i = 0) s = .ok (.item t) ∧ f.reader.run t = .ok (v, u) ∧
        readArray name size (i + 1) fs u = .ok (vs, rest) := by
  rw [readArray]
  grind

theorem readArray_shorter {αs : List Type} {fs : Fields αs} {vs : Values αs}
    (reads : readArray name size i fs s = .ok (vs, rest)) : rest.length < s.length := by
  induction αs generalizing i s with
  | nil => exact length_lt_of_skipBlank (readArray_nil.mp reads)
  | cons α αs ih =>
    obtain ⟨f, fs⟩ := fs
    obtain ⟨v, vs⟩ := vs
    obtain ⟨next, -⟩ | ⟨t, u, next, value, others⟩ := readArray_cons.mp reads
    · exact nextItem_close_shorter next
    · have := nextItem_item_le next
      have := f.reader.shorter value
      have := ih others
      omega

end

/-! ## Object form -/

/-- What follows in an object: a key whose opening quote has been read, or the end. -/
inductive NextMember where
  | key (s : List Char)
  | close (rest : List Char)

/-- Looks for a key or the closing brace; `first` when no member has been read. -/
def nextMember (first : Bool) (s : List Char) : Except Error NextMember :=
  match skipBlank s with
  | [] => .error .endOfObject
  | c :: s =>
    if c = '\x7d' then .ok (.close s)
    else if first then if c = '"' then .ok (.key s) else .error .keyNotString
    else if c = ',' then
      match skipBlank s with
      | [] => .error .endOfValue
      | d :: s =>
        if d = '"' then .ok (.key s)
        else if d = '\x7d' then .error .trailingComma
        else .error .keyNotString
    else .error .expectedObjectEnd

def readMember (r : Reader α) (s : List Char) : Except Error (Turn (Bool × α) β) :=
  match Document.readColon s with
  | .error e => .error e
  | .ok s =>
    match r.run s with
    | .error e => .error e
    | .ok (v, rest) => .ok (.again (false, v) rest)

def stepObject {αs : List Type} (fs : Fields αs) (state : Bool × Slots αs) (s : List Char) :
    Except Error (Turn (Bool × Slots αs) (Values αs)) :=
  match nextMember state.1 s with
  | .error e => .error e
  | .ok (.close rest) =>
    match fs.complete state.2 with
    | .error e => .error e
    | .ok vs => .ok (.done vs rest)
  | .ok (.key s) =>
    match Quoted.read true s with
    | .error e => .error e
    | .ok (key, s) =>
      match fs.place state.2 (String.ofList key) with
      | .unknown => readMember (skipped.map fun () => state.2) s
      | .taken => .error (.duplicateField (String.ofList key))
      | .free r => readMember r s

section
variable {first : Bool} {s t rest : List Char}

theorem nextMember_eq_close :
    nextMember first s = .ok (.close rest) ↔ skipBlank s = '\x7d' :: rest := by
  constructor
  · intro next
    unfold nextMember at next
    split at next
    · cases next
    · rename_i c t found
      split at next
      · rename_i close
        cases next
        rw [found, close]
      · repeat' split at next
        all_goals cases next
  · intro found
    simp [nextMember, found]

theorem nextMember_eq_key :
    nextMember first s = .ok (.key t) ↔
      if first then skipBlank s = '"' :: t
      else ∃ s', skipBlank s = ',' :: s' ∧ skipBlank s' = '"' :: t := by
  constructor
  · intro next
    unfold nextMember at next
    split at next
    · cases next
    · rename_i c u found
      split at next
      · cases next
      · split at next
        · rename_i isFirst
          split at next
          · rename_i quote
            cases next
            rw [if_pos isFirst, found, quote]
          · cases next
        · rename_i later
          split at next
          · rename_i comma
            rw [if_neg later]
            split at next
            · cases next
            · rename_i d u' found'
              split at next
              · rename_i quote
                cases next
                exact ⟨u, by rw [found, comma], by rw [found', quote]⟩
              · split at next <;> cases next
          · cases next
  · intro found
    cases first with
    | true => simp [nextMember, show skipBlank s = '"' :: t from found]
    | false =>
      obtain ⟨s', comma, quote⟩ := show ∃ s', _ from found
      simp [nextMember, comma, quote]

theorem nextMember_key_shorter (next : nextMember first s = .ok (.key t)) :
    t.length < s.length := by
  have found := nextMember_eq_key.mp next
  cases first with
  | true => exact length_lt_of_skipBlank (show skipBlank s = '"' :: t from found)
  | false =>
    obtain ⟨s', comma, quote⟩ := show ∃ s', skipBlank s = ',' :: s' ∧ skipBlank s' = '"' :: t
      from found
    exact Nat.lt_trans (length_lt_of_skipBlank quote) (length_lt_of_skipBlank comma)

theorem nextMember_close_shorter (next : nextMember first s = .ok (.close rest)) :
    rest.length < s.length := length_lt_of_skipBlank (nextMember_eq_close.mp next)

end

theorem readMember_eq_ok {r : Reader α} {s : List Char} {turn : Turn (Bool × α) β} :
    readMember r s = .ok turn ↔
      ∃ t v rest, Document.readColon s = .ok t ∧ r.run t = .ok (v, rest) ∧
        turn = .again (false, v) rest := by
  rw [readMember]
  grind

theorem readMember_shorter {r : Reader α} {s : List Char} {turn : Turn (Bool × α) β}
    (read : readMember r s = .ok turn) : turn.rest.length < s.length := by
  obtain ⟨t, v, rest, colon, value, rfl⟩ := readMember_eq_ok.mp read
  exact Nat.lt_trans (r.shorter value) (Document.readColon_shorter colon)

section
variable {αs : List Type} {fs : Fields αs} {state : Bool × Slots αs} {s : List Char}
  {turn : Turn (Bool × Slots αs) (Values αs)}

/-- A step closes the object, or reads a member with a key that is not taken. -/
theorem stepObject_eq_ok :
    stepObject fs state s = .ok turn ↔
      (∃ rest vs, nextMember state.1 s = .ok (.close rest) ∧ fs.complete state.2 = .ok vs ∧
        turn = .done vs rest) ∨
      ∃ t key u r, nextMember state.1 s = .ok (.key t) ∧ Quoted.read true t = .ok (key, u) ∧
        (fs.place state.2 (String.ofList key) = .unknown ∧ r = skipped.map (fun () => state.2) ∨
          fs.place state.2 (String.ofList key) = .free r) ∧
        readMember r u = .ok turn := by
  rw [stepObject]
  grind

theorem stepObject_shorter (step : stepObject fs state s = .ok turn) :
    turn.rest.length < s.length := by
  obtain ⟨rest, vs, next, -, rfl⟩ | ⟨t, key, u, r, next, name, -, member⟩ :=
    stepObject_eq_ok.mp step
  · exact nextMember_close_shorter next
  · have := nextMember_key_shorter next
    have := Quoted.read_shorter name
    have := readMember_shorter member
    omega

end

def object {αs : List Type} (fs : Fields αs) : Loop (Bool × Slots αs) (Values αs) where
  step := stepObject fs
  shorter := stepObject_shorter

/-- The object ends with all its fields, or has another member, of which the value is passed over or
fills a field. -/
theorem run_object_eq_ok {αs : List Type} {fs : Fields αs} {first : Bool} {slots : Slots αs}
    {s rest : List Char} {vs : Values αs} :
    (object fs).run (first, slots) s = .ok (vs, rest) ↔
      nextMember first s = .ok (.close rest) ∧ fs.complete slots = .ok vs ∨
      ∃ t key u after r slots' s', nextMember first s = .ok (.key t) ∧
        Quoted.read true t = .ok (key, u) ∧ Document.readColon u = .ok after ∧
        (fs.place slots (String.ofList key) = .unknown ∧ r = skipped.map (fun () => slots) ∨
          fs.place slots (String.ofList key) = .free r) ∧
        r.run after = .ok (slots', s') ∧ (object fs).run (false, slots') s' = .ok (vs, rest) := by
  rw [Loop.run_eq_ok]
  constructor
  · rintro (done | ⟨_, s', step, run⟩)
    · obtain ⟨_, _, close, complete, ⟨⟩⟩ | ⟨_, _, _, _, -, -, -, member⟩ := stepObject_eq_ok.mp done
      · exact .inl ⟨close, complete⟩
      · obtain ⟨_, _, _, -, -, ⟨⟩⟩ := readMember_eq_ok.mp member
    · obtain ⟨_, _, -, -, ⟨⟩⟩ | ⟨t, key, u, r, next, name, place, member⟩ := stepObject_eq_ok.mp step
      obtain ⟨after, slots', _, colon, value, ⟨⟩⟩ := readMember_eq_ok.mp member
      exact .inr ⟨t, key, u, after, r, slots', s', next, name, colon, place, value, run⟩
  · rintro (⟨close, complete⟩ | ⟨t, key, u, after, r, slots', s', next, name, colon, place, value, run⟩)
    · exact .inl (stepObject_eq_ok.mpr (.inl ⟨rest, vs, close, complete, rfl⟩))
    · have member : readMember (β := Values αs) r u = .ok (.again (false, slots') s') :=
        readMember_eq_ok.mpr ⟨after, slots', s', colon, value, rfl⟩
      exact .inr ⟨_, s', stepObject_eq_ok.mpr (.inr ⟨t, key, u, r, next, name, place, member⟩), run⟩

/-! ## Either form -/

def readValues {αs : List Type} (r : Record S αs) (c : Char) (s : List Char) :
    Except Error (Values αs × List Char) :=
  if c = '[' then readArray r.name αs.length 0 r.fields s
  else if c = '\x7b' then (object r.fields).run (true, .empty αs) s
  else .error (mismatch ("struct " ++ r.name) c s)

section
variable {αs : List Type} {r : Record S αs} {c : Char} {s rest : List Char} {vs : Values αs}

theorem readValues_eq_ok :
    r.readValues c s = .ok (vs, rest) ↔
      c = '[' ∧ readArray r.name αs.length 0 r.fields s = .ok (vs, rest) ∨
      c = '\x7b' ∧ (object r.fields).run (true, .empty αs) s = .ok (vs, rest) := by
  rw [readValues]
  grind

theorem readValues_le (reads : r.readValues c s = .ok (vs, rest)) : rest.length ≤ s.length := by
  obtain ⟨-, array⟩ | ⟨-, run⟩ := readValues_eq_ok.mp reads
  · exact Nat.le_of_lt (readArray_shorter array)
  · exact Nat.le_of_lt ((object r.fields).run_shorter run)

end

def reader {αs : List Type} (r : Record S αs) : Reader S :=
  (Reader.afterBlanks r.readValues readValues_le).map (Values.apply r.build)

def write {αs : List Type} (r : Record S αs) (s : S) : Value :=
  .object (r.fields.members (r.parts s))

@[reducible] def wire {αs : List Type} (r : Record S αs) : Wire S where
  reader := r.reader
  write := r.write

end Record

end Spindle.Json
