import Spindle.Json.Reader

/-!
# String tokens

The characters between two quotes and their escapes. Strict reading wants surrogate escapes in
pairs; lenient reading takes each of them for U+FFFD.
-/

namespace Spindle.Json.Quoted

/-! ## Writing -/

def shortEscape? (c : Char) : Option Char :=
  match c with
  | '"' => some '"'
  | '\\' => some '\\'
  | '\x08' => some 'b'
  | '\x0c' => some 'f'
  | '\n' => some 'n'
  | '\r' => some 'r'
  | '\t' => some 't'
  | _ => none

/-- A character as it is written between quotes: controls by escapes, all others but quote and
backslash as they are. -/
def writeChar (c : Char) : List Char :=
  match shortEscape? c with
  | some letter => ['\\', letter]
  | none =>
    if c.toNat < 0x20 then
      ['\\', 'u', '0', '0', Nat.digitChar (c.toNat / 16), Nat.digitChar (c.toNat % 16)]
    else [c]

def write (s : List Char) : List Char :=
  '"' :: (s.flatMap writeChar ++ ['"'])

/-! ## Reading -/

def ofShortEscape? (c : Char) : Option Char :=
  match c with
  | '"' => some '"'
  | '\\' => some '\\'
  | '/' => some '/'
  | 'b' => some '\x08'
  | 'f' => some '\x0c'
  | 'n' => some '\n'
  | 'r' => some '\r'
  | 't' => some '\t'
  | _ => none

def hexValue? (c : Char) : Option Nat :=
  if '0' ≤ c ∧ c ≤ '9' then some (c.toNat - '0'.toNat)
  else if 'a' ≤ c ∧ c ≤ 'f' then some (c.toNat - 'a'.toNat + 10)
  else if 'A' ≤ c ∧ c ≤ 'F' then some (c.toNat - 'A'.toNat + 10)
  else none

/-- Four hexadecimal digits. A text of less than four bytes is cut off rather than wrong. -/
def readHex (s : List Char) : Except Error (Nat × List Char) :=
  match s with
  | a :: b :: c :: d :: rest =>
    match hexValue? a, hexValue? b, hexValue? c, hexValue? d with
    | some a, some b, some c, some d => .ok (((a * 16 + b) * 16 + c) * 16 + d, rest)
    | _, _, _, _ => .error .invalidEscape
  | s => .error (if (String.ofList s).utf8ByteSize < 4 then .endOfString else .invalidEscape)

def isHighSurrogate (n : Nat) : Bool := 0xD800 ≤ n && n ≤ 0xDBFF

def isLowSurrogate (n : Nat) : Bool := 0xDC00 ≤ n && n ≤ 0xDFFF

def ofPair (high low : Nat) : Char :=
  Char.ofNat ((high - 0xD800) * 0x400 + (low - 0xDC00) + 0x10000)

/-- The low half of a pair, with its own `\u`. -/
def readLowHalf (high : Nat) (s : List Char) : Except Error (Char × List Char) :=
  match s with
  | [] | ['\\'] => .error .endOfString
  | '\\' :: 'u' :: s =>
    match readHex s with
    | .error e => .error e
    | .ok (low, rest) =>
      if isLowSurrogate low then .ok (ofPair high low, rest) else .error .loneSurrogate
  | _ => .error .unfinishedPair

/-- The rest of an escape after `\u`. -/
def readUnit (strict : Bool) (s : List Char) : Except Error (Char × List Char) :=
  match readHex s with
  | .error e => .error e
  | .ok (n, rest) =>
    if isLowSurrogate n then
      if strict then .error .loneSurrogate else .ok ('\uFFFD', rest)
    else if isHighSurrogate n then
      if strict then readLowHalf n rest else .ok ('\uFFFD', rest)
    else .ok (Char.ofNat n, rest)

/-- The rest of an escape after the backslash. -/
def readEscape (strict : Bool) (s : List Char) : Except Error (Char × List Char) :=
  match s with
  | [] => .error .endOfString
  | 'u' :: s => readUnit strict s
  | c :: s =>
    match ofShortEscape? c with
    | none => .error .invalidEscape
    | some c => .ok (c, s)

def readChar (strict : Bool) (read : List Char) (s : List Char) :
    Except Error (Turn (List Char) (List Char)) :=
  match s with
  | [] => .error .endOfString
  | '"' :: s => .ok (.done read.reverse s)
  | '\\' :: s =>
    match readEscape strict s with
    | .error e => .error e
    | .ok (c, rest) => .ok (.again (c :: read) rest)
  | c :: s => if c.toNat < 0x20 then .error .controlCharacter else .ok (.again (c :: read) s)

/-! ### What is read -/

/-- Four hexadecimal digits and their value. -/
inductive FourDigits : List Char → Nat → Prop where
  | mk {a b c d : Char} {w x y z : Nat} (first : hexValue? a = some w)
      (second : hexValue? b = some x) (third : hexValue? c = some y)
      (fourth : hexValue? d = some z) :
      FourDigits [a, b, c, d] (((w * 16 + x) * 16 + y) * 16 + z)

/-- What stands after a backslash, and for which character. -/
inductive Escape (strict : Bool) : List Char → Char → Prop where
  | short {letter c : Char} (known : ofShortEscape? letter = some c) : Escape strict [letter] c
  | unit {h : List Char} {n : Nat} (digits : FourDigits h n)
      (notLow : isLowSurrogate n = false) (notHigh : isHighSurrogate n = false) :
      Escape strict ('u' :: h) (Char.ofNat n)
  | half {h : List Char} {n : Nat} (lenient : strict = false) (digits : FourDigits h n)
      (surrogate : isLowSurrogate n = true ∨ isHighSurrogate n = true) :
      Escape strict ('u' :: h) '\uFFFD'
  | pair {g h : List Char} {high low : Nat} (pairs : strict = true) (first : FourDigits g high)
      (isHigh : isHighSurrogate high = true) (second : FourDigits h low)
      (isLow : isLowSurrogate low = true) :
      Escape strict ('u' :: (g ++ '\\' :: 'u' :: h)) (ofPair high low)

section
variable {strict : Bool} {s rest : List Char} {c : Char}

theorem isLowSurrogate_of_isHigh {n : Nat} (isHigh : isHighSurrogate n = true) :
    isLowSurrogate n = false := by
  simp only [isHighSurrogate, isLowSurrogate, Bool.and_eq_true, Bool.and_eq_false_iff,
    decide_eq_true_eq, decide_eq_false_iff_not] at *
  omega

theorem FourDigits.readHex {h : List Char} {n : Nat} (digits : FourDigits h n)
    (rest : List Char) : readHex (h ++ rest) = .ok (n, rest) := by
  obtain ⟨first, second, third, fourth⟩ := digits
  simp only [List.cons_append, List.nil_append, Quoted.readHex, first, second, third, fourth]

theorem readHex_eq_ok {n : Nat} :
    readHex s = .ok (n, rest) ↔ ∃ h, FourDigits h n ∧ s = h ++ rest := by
  refine ⟨fun reads => ?_, fun ⟨h, digits, text⟩ => text ▸ digits.readHex rest⟩
  unfold readHex at reads
  split at reads
  · split at reads <;> cases reads
    exact ⟨_, .mk ‹_› ‹_› ‹_› ‹_›, rfl⟩
  · cases reads

theorem readLowHalf_eq_ok {high : Nat} :
    readLowHalf high s = .ok (c, rest) ↔
      ∃ t low, s = '\\' :: 'u' :: t ∧ readHex t = .ok (low, rest) ∧
        isLowSurrogate low = true ∧ c = ofPair high low := by
  unfold readLowHalf
  grind

theorem Escape.readUnit {h : List Char} (escape : Escape strict ('u' :: h) c) (rest : List Char) :
    readUnit strict (h ++ rest) = .ok (c, rest) := by
  cases escape with
  | short known => cases known
  | unit digits notLow notHigh => simp [Quoted.readUnit, digits.readHex, notLow, notHigh]
  | half lenient digits surrogate =>
    simp only [Quoted.readUnit, digits.readHex, lenient]
    grind
  | @pair g h high low pairs first isHigh second isLow =>
    have half : readLowHalf high ('\\' :: 'u' :: (h ++ rest)) = .ok (ofPair high low, rest) :=
      readLowHalf_eq_ok.mpr ⟨_, low, rfl, second.readHex rest, isLow, rfl⟩
    simp [Quoted.readUnit, first.readHex, half, pairs, isHigh, isLowSurrogate_of_isHigh isHigh]

theorem readUnit_eq_ok :
    readUnit strict s = .ok (c, rest) ↔ ∃ h, Escape strict ('u' :: h) c ∧ s = h ++ rest := by
  refine ⟨fun reads => ?_, fun ⟨h, escape, text⟩ => text ▸ escape.readUnit rest⟩
  unfold readUnit at reads
  split at reads
  · cases reads
  rename_i hex
  obtain ⟨g, digits, text⟩ := readHex_eq_ok.mp hex
  split at reads
  · rename_i isLow
    split at reads <;> cases reads
    rename_i lenient
    exact ⟨g, .half (Bool.eq_false_iff.mpr lenient) digits (.inl isLow), text⟩
  rename_i notLow
  split at reads
  · rename_i isHigh
    split at reads
    · rename_i pairs
      obtain ⟨_, low, rfl, hex', isLow, value⟩ := readLowHalf_eq_ok.mp reads
      obtain ⟨h, digits', rfl⟩ := readHex_eq_ok.mp hex'
      refine ⟨g ++ '\\' :: 'u' :: h, ?_, ?_⟩
      · rw [value]
        exact .pair pairs digits isHigh digits' isLow
      · rw [text, List.append_assoc, List.cons_append, List.cons_append]
    · rename_i lenient
      cases reads
      exact ⟨g, .half (Bool.eq_false_iff.mpr lenient) digits (.inr isHigh), text⟩
  · rename_i notHigh
    cases reads
    exact ⟨g, .unit digits (Bool.eq_false_iff.mpr notLow) (Bool.eq_false_iff.mpr notHigh), text⟩

theorem readEscape_of_head (h : c ≠ 'u') :
    readEscape strict (c :: s) =
      match ofShortEscape? c with
      | none => .error .invalidEscape
      | some c => .ok (c, s) := by
  cases found : ofShortEscape? c with
  | none => simp only [readEscape, found]
  | some d => simp only [readEscape, found]

theorem Escape.readEscape {u : List Char} (escape : Escape strict u c) (rest : List Char) :
    readEscape strict (u ++ rest) = .ok (c, rest) := by
  cases escape with
  | @short letter c known =>
    have notUnit : letter ≠ 'u' := by
      rintro rfl
      cases known
    show Quoted.readEscape strict (letter :: rest) = _
    rw [readEscape_of_head notUnit, known]
  | unit digits notLow notHigh => exact (Escape.unit digits notLow notHigh).readUnit rest
  | half lenient digits surrogate => exact (Escape.half lenient digits surrogate).readUnit rest
  | pair pairs first isHigh second isLow =>
    exact (Escape.pair pairs first isHigh second isLow).readUnit rest

theorem readEscape_eq_ok :
    readEscape strict s = .ok (c, rest) ↔ ∃ u, Escape strict u c ∧ s = u ++ rest := by
  refine ⟨fun reads => ?_, fun ⟨u, escape, text⟩ => text ▸ escape.readEscape rest⟩
  cases s with
  | nil => cases reads
  | cons letter s =>
    by_cases unit : letter = 'u'
    · obtain ⟨h, escape, rfl⟩ := readUnit_eq_ok.mp (unit ▸ reads)
      exact ⟨'u' :: h, escape, by rw [unit]; rfl⟩
    · rw [readEscape_of_head unit] at reads
      split at reads <;> cases reads
      exact ⟨[letter], .short ‹_›, rfl⟩

theorem readChar_eq_ok {read : List Char} {turn : Turn (List Char) (List Char)} :
    readChar strict read s = .ok turn ↔
      (∃ rest, s = '"' :: rest ∧ turn = .done read.reverse rest) ∨
      (∃ u c rest, Escape strict u c ∧ s = '\\' :: (u ++ rest) ∧ turn = .again (c :: read) rest) ∨
      ∃ c rest, 0x20 ≤ c.toNat ∧ c ≠ '"' ∧ c ≠ '\\' ∧ s = c :: rest ∧
        turn = .again (c :: read) rest := by
  constructor
  · intro reads
    unfold readChar at reads
    split at reads
    · cases reads
    · cases reads
      exact .inl ⟨_, rfl, rfl⟩
    · split at reads <;> cases reads
      rename_i reads
      obtain ⟨u, escape, rfl⟩ := readEscape_eq_ok.mp reads
      exact .inr (.inl ⟨u, _, _, escape, rfl, rfl⟩)
    · rename_i c rest notQuote notBackslash
      split at reads <;> cases reads
      rename_i printable
      exact .inr (.inr ⟨c, rest, Nat.le_of_not_lt printable, fun same => notQuote same,
        fun same => notBackslash same, rfl, rfl⟩)
  · rintro (⟨rest, rfl, rfl⟩ | ⟨u, c, rest, escape, rfl, rfl⟩ |
      ⟨c, rest, printable, notQuote, notBackslash, rfl, rfl⟩)
    · rfl
    · rw [readChar, escape.readEscape]
    · rw [readChar, if_neg (Nat.not_lt.mpr printable)]
      all_goals assumption

theorem readChar_shorter {read : List Char} {turn : Turn (List Char) (List Char)}
    (h : readChar strict read s = .ok turn) : turn.rest.length < s.length := by
  obtain ⟨rest, rfl, rfl⟩ | ⟨u, c, rest, -, rfl, rfl⟩ | ⟨c, rest, -, -, -, rfl, rfl⟩ :=
    readChar_eq_ok.mp h
  · exact Nat.lt_succ_self _
  · rw [List.length_cons, List.length_append]
    exact Nat.lt_succ_of_le (Nat.le_add_left _ _)
  · exact Nat.lt_succ_self _

end

def chars (strict : Bool) : Loop (List Char) (List Char) where
  step := readChar strict
  shorter := readChar_shorter

def read (strict : Bool) (s : List Char) : Except Error (List Char × List Char) :=
  (chars strict).run [] s

theorem read_shorter {strict : Bool} {s cs rest : List Char}
    (h : read strict s = .ok (cs, rest)) : rest.length < s.length :=
  (chars strict).run_shorter h

/-- The characters that a text between quotes is read as. -/
inductive Reads (strict : Bool) : List Char → List Char → Prop where
  | nil : Reads strict [] []
  | plain {c : Char} {s cs : List Char} (printable : 0x20 ≤ c.toNat) (notQuote : c ≠ '"')
      (notBackslash : c ≠ '\\') (others : Reads strict s cs) : Reads strict (c :: s) (c :: cs)
  | escape {u s cs : List Char} {c : Char} (escape : Escape strict u c)
      (others : Reads strict s cs) : Reads strict ('\\' :: (u ++ s)) (c :: cs)

theorem run_eq_ok {strict : Bool} {read s cs rest : List Char} :
    (chars strict).run read s = .ok (cs, rest) ↔
      ∃ body ds, Reads strict body ds ∧ s = body ++ '"' :: rest ∧ cs = read.reverse ++ ds := by
  constructor
  · intro run
    fun_induction (chars strict).run read s with
    | case1 => cases run
    | case2 read s cs' rest' step =>
      obtain ⟨_, rfl, same⟩ | ⟨_, _, _, -, -, more⟩ | ⟨_, _, -, -, -, -, more⟩ :=
        readChar_eq_ok.mp step
      · cases same
        cases run
        exact ⟨[], [], .nil, rfl, (List.append_nil _).symm⟩
      · cases more
      · cases more
    | case3 read s next t step ih =>
      obtain ⟨body, ds, reads, rfl, rfl⟩ := ih run
      obtain ⟨_, -, done⟩ | ⟨u, c, _, escape, rfl, same⟩ |
        ⟨c, _, printable, notQuote, notBackslash, rfl, same⟩ := readChar_eq_ok.mp step
      · cases done
      · cases same
        exact ⟨_, c :: ds, .escape escape reads, by simp, by simp⟩
      · cases same
        exact ⟨_, c :: ds, .plain printable notQuote notBackslash reads, rfl, by simp⟩
  · rintro ⟨body, ds, reads, rfl, rfl⟩
    induction reads generalizing read with
    | nil => exact Loop.run_eq_ok.mpr (.inl (by rw [List.append_nil]; rfl))
    | @plain c s cs printable notQuote notBackslash _ ih =>
      have run := @ih (c :: read)
      rw [List.reverse_cons, List.append_assoc] at run
      exact Loop.run_eq_ok.mpr (.inr ⟨_, _, readChar_eq_ok.mpr
        (.inr (.inr ⟨c, _, printable, notQuote, notBackslash, rfl, rfl⟩)), run⟩)
    | @escape u s cs c escape _ ih =>
      have run := @ih (c :: read)
      rw [List.reverse_cons, List.append_assoc] at run
      rw [List.cons_append, List.append_assoc]
      exact Loop.run_eq_ok.mpr (.inr ⟨_, _, readChar_eq_ok.mpr
        (.inr (.inl ⟨u, c, _, escape, rfl, rfl⟩)), run⟩)

theorem read_eq_ok {strict : Bool} {s cs rest : List Char} :
    Quoted.read strict s = .ok (cs, rest) ↔
      ∃ body, Reads strict body cs ∧ s = body ++ '"' :: rest := by
  simp only [Quoted.read, run_eq_ok, List.reverse_nil, List.nil_append]
  grind

end Spindle.Json.Quoted
