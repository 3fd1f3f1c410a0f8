import Spindle.Json.Reader

/-!
# Number literals

A number as it is written, its reader, and what it stands for: an integer of at most 64 bits, or
the double that the leading digits and a power of ten give.
-/

namespace Spindle.Json

/-- The exponent of a literal: `e` or `E`, a sign if one is written, and digits. -/
structure Exponent where
  mark : Char
  sign : Option Char
  digits : List Char
  deriving DecidableEq, Repr

structure Literal where
  negative : Bool
  whole : List Char
  fraction : Option (List Char)
  exponent : Option Exponent
  deriving DecidableEq, Repr

inductive Number where
  | integer (z : Int)
  | float (x : Float)
  deriving DecidableEq

def digitsValue (digits : List Char) : Nat := Nat.ofDigitChars 10 digits 0

namespace Exponent

def chars (e : Exponent) : List Char :=
  e.mark :: (e.sign.toList ++ e.digits)

def power (e : Exponent) : Int :=
  if e.sign = some '-' then -(digitsValue e.digits : Int) else digitsValue e.digits

end Exponent

namespace Literal

def chars (l : Literal) : List Char :=
  (if l.negative then ['-'] else []) ++ l.whole ++
    (match l.fraction with
      | none => []
      | some digits => '.' :: digits) ++
    (match l.exponent with
      | none => []
      | some e => e.chars)

def ofInt (z : Int) : Literal :=
  ⟨decide (z < 0), Nat.toDigits 10 z.natAbs, none, none⟩

/-! ## Reading -/

/-- A run of at least one digit; `atEnd` says what is wrong when the text stops instead. -/
def readDigits (atEnd : Error) (s : List Char) : Except Error (List Char × List Char) :=
  if s.takeWhile Char.isDigit = [] then .error (if s = [] then atEnd else .invalidNumber)
  else .ok (s.takeWhile Char.isDigit, s.dropWhile Char.isDigit)

def readWhole (atEnd : Error) (s : List Char) : Except Error (List Char × List Char) :=
  match readDigits atEnd s with
  | .error e => .error e
  | .ok (digits, rest) =>
    if digits.head? = some '0' ∧ digits ≠ ['0'] then .error .invalidNumber
    else .ok (digits, rest)

def readFraction (atEnd : Error) (s : List Char) :
    Except Error (Option (List Char) × List Char) :=
  match s with
  | '.' :: s =>
    match readDigits atEnd s with
    | .error e => .error e
    | .ok (digits, rest) => .ok (some digits, rest)
  | s => .ok (none, s)

def readSign (s : List Char) : Option Char × List Char :=
  match s with
  | '+' :: s => (some '+', s)
  | '-' :: s => (some '-', s)
  | s => (none, s)

def readExponent (atEnd : Error) (s : List Char) :
    Except Error (Option Exponent × List Char) :=
  match s with
  | [] => .ok (none, [])
  | c :: s =>
    if c = 'e' ∨ c = 'E' then
      match readDigits atEnd (readSign s).2 with
      | .error e => .error e
      | .ok (digits, rest) => .ok (some ⟨c, (readSign s).1, digits⟩, rest)
    else .ok (none, c :: s)

def readMagnitude (atEnd : Error) (negative : Bool) (s : List Char) :
    Except Error (Literal × List Char) :=
  match readWhole atEnd s with
  | .error e => .error e
  | .ok (whole, s) =>
    match readFraction atEnd s with
    | .error e => .error e
    | .ok (fraction, s) =>
      match readExponent atEnd s with
      | .error e => .error e
      | .ok (exponent, s) => .ok (⟨negative, whole, fraction, exponent⟩, s)

def read (atEnd : Error) (s : List Char) : Except Error (Literal × List Char) :=
  match s with
  | '-' :: s => readMagnitude atEnd true s
  | s => readMagnitude atEnd false s

/-! ### What is read -/

section
variable {e : Error} {s rest digits : List Char}

theorem readDigits_eq_ok :
    readDigits e s = .ok (digits, rest) ↔
      digits ≠ [] ∧ s.takeWhile Char.isDigit = digits ∧ s.dropWhile Char.isDigit = rest := by
  unfold readDigits
  grind

theorem readWhole_eq_ok :
    readWhole e s = .ok (digits, rest) ↔
      readDigits e s = .ok (digits, rest) ∧ (digits.head? = some '0' → digits = ['0']) := by
  unfold readWhole
  grind

theorem readFraction_eq_ok {fraction : Option (List Char)} :
    readFraction e s = .ok (fraction, rest) ↔
      (s.head? ≠ some '.' ∧ fraction = none ∧ rest = s) ∨
      ∃ t digits, s = '.' :: t ∧ readDigits e t = .ok (digits, rest) ∧ fraction = some digits := by
  unfold readFraction
  grind [List.head?_eq_some_iff]

theorem readExponent_eq_ok {exponent : Option Exponent} :
    readExponent e s = .ok (exponent, rest) ↔
      ((∀ c ∈ s.head?, ¬ (c = 'e' ∨ c = 'E')) ∧ exponent = none ∧ rest = s) ∨
      ∃ c t digits, s = c :: t ∧ (c = 'e' ∨ c = 'E') ∧
        readDigits e (readSign t).2 = .ok (digits, rest) ∧
        exponent = some ⟨c, (readSign t).1, digits⟩ := by
  unfold readExponent
  grind

theorem readMagnitude_eq_ok {negative : Bool} {l : Literal} :
    readMagnitude e negative s = .ok (l, rest) ↔
      l.negative = negative ∧ ∃ t u, readWhole e s = .ok (l.whole, t) ∧
        readFraction e t = .ok (l.fraction, u) ∧ readExponent e u = .ok (l.exponent, rest) := by
  obtain ⟨sign, whole, fraction, exponent⟩ := l
  unfold readMagnitude
  grind

theorem read_eq_ok {l : Literal} :
    read e s = .ok (l, rest) ↔
      (s.head? ≠ some '-' ∧ readMagnitude e false s = .ok (l, rest)) ∨
      ∃ t, s = '-' :: t ∧ readMagnitude e true t = .ok (l, rest) := by
  unfold read
  grind [List.head?_eq_some_iff]

/-- What is wrong at the end of a text does not matter to a number that is read. -/
theorem read_ok {l : Literal} (reads : read e s = .ok (l, rest)) (e' : Error) :
    read e' s = .ok (l, rest) := by
  simp only [read_eq_ok, readMagnitude_eq_ok, readWhole_eq_ok, readFraction_eq_ok,
    readExponent_eq_ok, readDigits_eq_ok] at reads ⊢
  exact reads

/-! ### What is left is shorter -/

theorem readDigits_shorter (h : readDigits e s = .ok (digits, rest)) :
    rest.length < s.length := by
  obtain ⟨some, rfl, rfl⟩ := readDigits_eq_ok.mp h
  have text := congrArg List.length (List.takeWhile_append_dropWhile (p := Char.isDigit) (l := s))
  have := List.length_pos_iff.mpr some
  rw [List.length_append] at text
  omega

theorem readFraction_le {fraction : Option (List Char)}
    (h : readFraction e s = .ok (fraction, rest)) :
    rest.length ≤ s.length := by
  obtain ⟨-, -, rfl⟩ | ⟨t, digits, rfl, read, -⟩ := readFraction_eq_ok.mp h
  · exact Nat.le_refl _
  · exact Nat.le_succ_of_le (Nat.le_of_lt (readDigits_shorter read))

theorem length_readSign_le (s : List Char) : (readSign s).2.length ≤ s.length := by
  unfold readSign
  split <;> simp

theorem readExponent_le {exponent : Option Exponent}
    (h : readExponent e s = .ok (exponent, rest)) :
    rest.length ≤ s.length := by
  obtain ⟨-, -, rfl⟩ | ⟨c, t, digits, rfl, -, read, -⟩ := readExponent_eq_ok.mp h
  · exact Nat.le_refl _
  · have := length_readSign_le t
    have := readDigits_shorter read
    rw [List.length_cons]
    omega

theorem readMagnitude_shorter {negative : Bool} {l : Literal}
    (h : readMagnitude e negative s = .ok (l, rest)) :
    rest.length < s.length := by
  obtain ⟨-, t, u, whole, fraction, exponent⟩ := readMagnitude_eq_ok.mp h
  have := readDigits_shorter (readWhole_eq_ok.mp whole).1
  have := readFraction_le fraction
  have := readExponent_le exponent
  omega

theorem read_shorter {l : Literal} (h : read e s = .ok (l, rest)) : rest.length < s.length := by
  obtain ⟨-, read⟩ | ⟨t, rfl, read⟩ := read_eq_ok.mp h
  · exact readMagnitude_shorter read
  · exact Nat.lt_succ_of_lt (readMagnitude_shorter read)

end

/-! ## Value -/

/-- Appends digits to a number for as long as it stays below `2 ^ 64`; gives also how many were
taken. -/
def absorb (n : Nat) : List Char → Nat × Nat
  | [] => (n, 0)
  | c :: digits =>
    let m := n * 10 + (c.toNat - '0'.toNat)
    if m < UInt64.size then ((absorb m digits).1, (absorb m digits).2 + 1) else (n, 0)

/-- `x * 10 ^ power` by one multiplication or division, after divisions by `10 ^ 308` that bring
the power near. -/
def scale (x : Float) (power : Int) : Except Error Float :=
  if power.natAbs ≤ 308 then
    let ten := Float.ofScientific 1 false power.natAbs
    if 0 ≤ power then
      if (x * ten).isInf then .error .numberOutOfRange else .ok (x * ten)
    else .ok (x / ten)
  else if x == 0.0 then .ok x
  else if h : 0 ≤ power then .error .numberOutOfRange
  else scale (x / 1e308) (power + 308)
termination_by power.natAbs
decreasing_by omega

/-- The double of a literal: the digits that fit in 64 bits, then the power of ten. An exponent
of 2 ^ 31 or more gives zero or is out of range. -/
def float (l : Literal) : Except Error Float :=
  let (whole, taken) := absorb 0 l.whole
  let (significand, decimals) := absorb whole (l.fraction.getD [])
  let shift : Int := l.whole.length - taken - decimals
  let power := match l.exponent with
    | none => 0
    | some e => e.power
  let magnitude :=
    if UInt32.size / 2 ≤ power.natAbs then
      if significand ≠ 0 ∧ 0 < power then .error .numberOutOfRange else .ok 0.0
    else scale significand.toUInt64.toFloat (shift + power)
  match magnitude with
  | .error e => .error e
  | .ok x => .ok (if l.negative then -x else x)

/-- A literal without point and exponent is an integer when it fits in 64 bits, signed if it is
negative; `-0` is not. -/
def number (l : Literal) : Except Error Number :=
  let n := digitsValue l.whole
  if l.fraction = none ∧ l.exponent = none ∧ l.negative = false ∧ n < UInt64.size then
    .ok (.integer n)
  else if l.fraction = none ∧ l.exponent = none ∧ l.negative = true ∧ 0 < n ∧ n ≤ UInt64.size / 2 then
    .ok (.integer (-n))
  else
    match l.float with
    | .error e => .error e
    | .ok x => .ok (.float x)

end Literal

end Spindle.Json
