import Spindle.Proofs.Yaml.QuotedScalars

/-!
# Keys, dashes and brackets

The tokens that make collections: a key with its colon, the dash of an item, brackets and commas.
-/

namespace Spindle.Yaml

/-- The two kinds of brackets. -/
inductive Bracket where
  | square
  | curly

namespace Bracket

def opening : Bracket → Char
  | square => '['
  | curly => '\x7b'

def closing : Bracket → Char
  | square => ']'
  | curly => '\x7d'

def openingToken : Bracket → Token
  | square => .flowSequence
  | curly => .flowMapping

def closingToken : Bracket → Token
  | square => .flowSequenceEnd
  | curly => .flowMappingEnd

end Bracket

/-- The characters that are tokens of their own wherever they stand. -/
def marks : List Char := [',', '[', ']', '\x7b', '\x7d']

namespace Scan

variable {t : Scan} {a : Spot} {rest : List Char}

theorem readToken_mark {b : Char} (split : t.place.rest = b :: rest) (isMark : b ∈ marks) :
    t.readToken =
      if b = ',' then t.readFlowEntry
      else if b = '[' then t.openFlow .flowSequence
      else if b = '\x7b' then t.openFlow .flowMapping
      else if b = ']' then t.closeFlow .flowSequenceEnd
      else t.closeFlow .flowMappingEnd := by
  obtain ⟨first, second⟩ := peek?_of_rest split
  have marker : ∀ mark, mark ∉ marks → t.place.atMarker mark = false := fun mark other =>
    atMarker_eq_false split (.inr fun same => other (same ▸ isMark))
  unfold readToken
  rw [first]
  simp only [marker '-' (by decide), marker '.' (by decide)]
  simp only [marks, List.mem_cons, List.not_mem_nil, or_false] at isMark
  rcases isMark with rfl | rfl | rfl | rfl | rfl <;> simp

theorem readToken_opening (k : Bracket) (split : t.place.rest = k.opening :: rest) :
    t.readToken = t.openFlow k.openingToken := by
  cases k <;> exact readToken_mark split (by decide)

theorem readToken_closing (k : Bracket) (split : t.place.rest = k.closing :: rest) :
    t.readToken = t.closeFlow k.closingToken := by
  cases k <;> exact readToken_mark split (by decide)

theorem readToken_dash (split : t.place.rest = '-' :: rest) (ends : endsWord rest.head? = true) :
    t.readToken = t.readBlockEntry := by
  obtain ⟨first, second⟩ := peek?_of_rest split
  have notDash : t.place.atMarker '-' = false := by
    have different : t.place.rest.take 3 ≠ ['-', '-', '-'] := by
      intro same
      rw [split] at same
      cases rest with
      | nil => simp at same
      | cons d rest =>
        simp only [List.take_succ_cons, List.cons.injEq] at same
        obtain ⟨-, rfl, -⟩ := same
        cases ends
    simp [Cursor.atMarker, different]
  have notDot : t.place.atMarker '.' = false := atMarker_eq_false split (.inr (by decide))
  unfold readToken
  rw [first]
  simp [second, notDash, notDot, ends]

/-- Inside of brackets a colon needs no blank after it. -/
theorem readToken_colon (split : t.place.rest = ':' :: rest)
    (ends : t.inFlow = true ∨ endsWord rest.head? = true) : t.readToken = t.readValue := by
  obtain ⟨first, second⟩ := peek?_of_rest split
  have notDash : t.place.atMarker '-' = false := atMarker_eq_false split (.inr (by decide))
  have notDot : t.place.atMarker '.' = false := atMarker_eq_false split (.inr (by decide))
  unfold readToken
  rw [first]
  simp [second, notDash, notDot, ends]

end Scan

namespace Reaches

variable {a : Spot} {sp : Spacing} {rest : List Char} {b : Char}

theorem startsToken_mark (isMark : b ∈ '-' :: ':' :: marks) : StartsToken (b :: rest) := by
  rintro d ⟨⟩
  simp only [marks, List.mem_cons, List.not_mem_nil, or_false] at isMark
  rcases isMark with rfl | rfl | rfl | rfl | rfl | rfl | rfl <;> decide

/-- Over a character that is a token of its own. -/
theorem mark {token : Token} {keyAllowed : Bool} {depth : Nat}
    (split : a.rest = sp.text ++ (b :: rest)) (fits : sp.Fits a.tabs)
    (isMark : b ∈ marks) (inside : a.depth = 0 → a.indent ≤ sp.column a.column)
    (other : token ≠ .textEnd)
    (reads : ∀ t : Scan, t.Is (a.past sp (b :: rest)) → ∃ k ks,
      t.readToken = some { t.take 1 token with keyStart := k, outerStarts := ks, keyAllowed } ∧
        ks.length = depth ∧ ∀ k', some k' ∈ k :: ks → k'.required = false) :
    Reaches a { a with
      rest
      column := sp.column a.column + 1
      tokens := a.tokens ++ [token]
      keyAllowed
      depth } := by
  have starts : StartsToken (b :: rest) := startsToken_mark (by simp [isMark])
  refine .inner split fits starts inside (fun t is => ?_) (by simpa using other)
  have here : t.place.rest = [b] ++ rest := is.rest
  have after : (t.place.advance 1).rest = rest := Cursor.rest_advance here
  obtain ⟨k, ks, read, length, free⟩ := reads t is
  refine ⟨_, read, Scan.Is.stands ?_, ?_⟩
  · exact { is with
      rest := after
      column := congrArg (· + 1) is.column
      tokens := congrArg (· ++ [token]) is.tokens
      allowed := rfl
      depth := length
      free }
  · change (t.place.advance 1).rest.length < _
    rw [after]
    simp

/-- Over a bracket that opens a collection. -/
theorem openBracket (k : Bracket) (split : a.rest = sp.text ++ (k.opening :: rest))
    (fits : sp.Fits a.tabs) (inside : a.depth = 0 → a.indent < sp.column a.column) :
    Reaches a { a with
      rest
      column := sp.column a.column + 1
      tokens := a.tokens ++ [k.openingToken]
      keyAllowed := true
      depth := a.depth + 1 } := by
  refine mark split fits (by cases k <;> decide) (fun block => Int.le_of_lt (inside block))
    (by cases k <;> decide) ?_
  intro t is
  obtain ⟨start, marks, free⟩ := is.markKey fun block same => by
    have := inside block
    have : a.indent = (sp.column a.column : Int) := same
    omega
  refine ⟨none, start :: t.outerStarts, ?_, congrArg (· + 1) is.depth, ?_⟩
  · rw [Scan.readToken_opening k is.rest]
    simp [Scan.openFlow, marks, Scan.take]
  · intro k' mem
    simp only [List.mem_cons, reduceCtorEq, false_or] at mem
    rcases mem with same | mem
    · exact free k' same.symm
    · exact is.free k' (List.mem_cons_of_mem _ mem)

/-- Over a bracket that closes a collection. -/
theorem closeBracket (k : Bracket) (split : a.rest = sp.text ++ (k.closing :: rest))
    (fits : sp.Fits a.tabs) (isOpen : a.depth ≠ 0) :
    Reaches a { a with
      rest
      column := sp.column a.column + 1
      tokens := a.tokens ++ [k.closingToken]
      keyAllowed := false
      depth := a.depth - 1 } := by
  refine mark split fits (by cases k <;> decide) (fun block => absurd block isOpen)
    (by cases k <;> decide) ?_
  intro t is
  have depth : t.outerStarts.length = a.depth := is.depth
  cases starts : t.outerStarts with
  | nil =>
    rw [starts] at depth
    exact absurd depth.symm isOpen
  | cons start outer =>
    refine ⟨start, outer, ?_, ?_, fun k' mem => is.free k' (List.mem_cons_of_mem _ (starts ▸ mem))⟩
    · rw [Scan.readToken_closing k is.rest]
      simp [Scan.closeFlow, Scan.dropKey_eq is.free, Scan.take, starts]
    · rw [← depth, starts]
      simp

/-- Over a comma. -/
theorem comma (split : a.rest = sp.text ++ (',' :: rest)) (fits : sp.Fits a.tabs)
    (isOpen : a.depth ≠ 0) :
    Reaches a { a with
      rest
      column := sp.column a.column + 1
      tokens := a.tokens ++ [.flowEntry]
      keyAllowed := true } := by
  refine mark split fits (by decide) (fun block => absurd block isOpen) (by simp) ?_
  intro t is
  refine ⟨none, t.outerStarts, ?_, is.depth, ?_⟩
  · rw [Scan.readToken_mark is.rest (by decide)]
    simp [Scan.readFlowEntry, Scan.dropKey_eq is.free, Scan.take]
  · intro k' mem
    simp only [List.mem_cons, reduceCtorEq, false_or] at mem
    exact is.free k' (List.mem_cons_of_mem _ mem)

end Reaches

/-! ## Blocks -/

/-- The spot with a block opened at a column if that is further in. -/
def Spot.opened (column : Nat) (token : Token) (a : Spot) : Spot :=
  { a with
    indent := if a.indent < column then column else a.indent
    outers := if a.indent < column then a.indent :: a.outers else a.outers
    tokens := if a.indent < column then a.tokens ++ [token] else a.tokens }

theorem insertIdx_append {α : Type} (xs ys : List α) (y : α) :
    (xs ++ ys).insertIdx xs.length y = xs ++ y :: ys := by
  induction xs with
  | nil => rfl
  | cons x xs ih => simpa using ih

/-- A scan with a block opened at a column, if that is further in, between its last tokens. -/
def Scan.opening (s : Scan) (column : Nat) (token : Token) (before after : List Token) : Scan :=
  { s with
    indent := if s.indent < column then column else s.indent
    outerIndents := if s.indent < column then s.indent :: s.outerIndents else s.outerIndents
    tokens := (if s.indent < column then before ++ [token] else before) ++ after }

theorem Scan.openBlock_eq {s : Scan} {before after : List Token} (block : s.inFlow = false)
    (tokens : s.tokens = before ++ after) (column : Nat) (token : Token) :
    s.openBlock column before.length token = s.opening column token before after := by
  unfold openBlock opening
  by_cases further : s.indent < column
  · simp [block, further, tokens, insertIdx_append]
  · simp [block, further, ← tokens]

theorem Scan.Is.opening {t : Scan} {a : Spot} (is : t.Is a) (column : Nat) (token : Token)
    (after : List Token) :
    (t.opening column token t.tokens after).Is
      { a.opened column token with tokens := (a.opened column token).tokens ++ after } :=
  { is with
    indent := by simp [Scan.opening, Spot.opened, is.indent]
    outers := by simp [Scan.opening, Spot.opened, is.indent, is.outers]
    tokens := by simp [Scan.opening, Spot.opened, is.indent, is.tokens] }

/-- Over the dash of an item, which may be the first one of a block. -/
theorem Reaches.dash {a : Spot} {sp : Spacing} {rest : List Char} {column : Nat}
    (split : a.rest = sp.text ++ ('-' :: rest)) (fits : sp.Fits a.tabs)
    (ends : endsWord rest.head? = true) (block : a.depth = 0)
    (allowed : (a.keyAllowed || sp.broken) = true) (at' : column = sp.column a.column) :
    Reaches a { (a.closed column).opened column .blockSequence with
      rest
      column := column + 1
      tokens := ((a.closed column).opened column .blockSequence).tokens ++ [.blockEntry]
      keyAllowed := true } := by
  refine .token split fits (startsToken_mark (by simp)) (fun t is => ?_) (by simp)
  subst at'
  have keyAllowed : t.keyAllowed = true := by
    rw [is.allowed]
    simpa [Spot.closed, Spot.past, block] using allowed
  have column : t.place.column = sp.column a.column := is.column
  have flow : t.inFlow = false := is.inFlow.trans (decide_eq_false fun some => some block)
  have opened := is.opening (sp.column a.column) .blockSequence []
  have opens : t.openBlock t.place.column t.tokens.length .blockSequence =
      t.opening (sp.column a.column) .blockSequence t.tokens [] := by
    rw [column, Scan.openBlock_eq flow (List.append_nil _).symm]
  have here : t.place.rest = ['-'] ++ rest := is.rest
  have after : (t.place.advance 1).rest = rest := Cursor.rest_advance here
  have reads : t.readToken = some
      ((t.opening (sp.column a.column) .blockSequence t.tokens []).scanned none .blockEntry
        (t.place.advance 1) true) := by
    rw [Scan.readToken_dash here ends]
    simp only [Scan.readBlockEntry, keyAllowed, Bool.or_true, if_true, opens,
      Scan.dropKey_eq opened.free]
    rfl
  refine ⟨_, reads, Scan.Is.stands ?_, ?_⟩
  · have next : (t.place.advance 1).column = sp.column a.column + 1 := congrArg (· + 1) column
    have atEnd := opened.scanned (k := none) (by simp) .blockEntry (t.place.advance 1) true
    rw [after, next, List.append_nil] at atEnd
    exact atEnd
  · change (t.place.advance 1).rest.length < _
    rw [after]
    simp

/-! ## Keys -/

/-- The keys of settings: letters, digits, `_` and `-`, a digit or `-` not at the start. -/
def IsIdentifier (w : List Char) : Prop :=
  ∃ b rest, w = b :: rest ∧ (b.isAlpha = true ∨ b = '_') ∧ ∀ c ∈ rest, isWord c = true

theorem isWord_of_isAlpha {b : Char} (letter : b.isAlpha = true ∨ b = '_') : isWord b = true := by
  rcases letter with letter | rfl
  · simp [isWord, Char.isAlphanum, letter]
  · rfl

theorem ne_of_isWord {c d : Char} (word : isWord c = true) (other : isWord d = false) : c ≠ d := by
  rintro rfl
  rw [word] at other
  cases other

theorem bounds_of_isWord {c : Char} (word : isWord c = true) : 0x20 ≤ c.toNat ∧ c.toNat ≤ 0x7E := by
  unfold isWord at word
  delta Char.isAlphanum Char.isAlpha Char.isUpper Char.isLower Char.isDigit at word
  simp only [Bool.or_eq_true, Bool.and_eq_true, decide_eq_true_eq, ge_iff_le,
    UInt32.le_iff_toNat_le] at word
  rcases word with ((((⟨low, high⟩ | ⟨low, high⟩) | ⟨low, high⟩) | rfl) | rfl)
  · exact ⟨Nat.le_trans (by decide) low, Nat.le_trans high (by decide)⟩
  · exact ⟨Nat.le_trans (by decide) low, Nat.le_trans high (by decide)⟩
  · exact ⟨Nat.le_trans (by decide) low, Nat.le_trans high (by decide)⟩
  · decide
  · decide

theorem class_of_isWord {c : Char} (word : isWord c = true) :
    isBlank c = false ∧ isBreak c = false ∧ isFlowIndicator c = false ∧ c ≠ ':' ∧
      c ≠ '\ufeff' ∧ c ≠ '.' ∧ c.utf8Size = 1 := by
  have ne : ∀ d, isWord d = false → c ≠ d := fun d => ne_of_isWord word
  refine ⟨?_, ?_, ?_, ne _ (by decide), ne _ (by decide), ne _ (by decide), ?_⟩
  · simp [isBlank, ne ' ' (by decide), ne '\t' (by decide)]
  · simp [isBreak, isSeparator, ne '\r' (by decide), ne '\n' (by decide), ne '\u0085' (by decide),
      ne '\u2028' (by decide), ne '\u2029' (by decide)]
  · simp [isFlowIndicator, ne ',' (by decide), ne '[' (by decide), ne ']' (by decide),
      ne '\x7b' (by decide), ne '\x7d' (by decide)]
  · have small : c.val ≤ 0x7f := UInt32.le_iff_toNat_le.mpr
      (Nat.le_trans (bounds_of_isWord word).2 (by decide))
    exact Char.utf8Size_eq_one_iff.mpr small

theorem isIndicator_of_isAlpha {b : Char} (letter : b.isAlpha = true ∨ b = '_') :
    isIndicator b = false := by
  have word := isWord_of_isAlpha letter
  have flow := (class_of_isWord word).2.2.1
  have ne : ∀ d, isWord d = false → b ≠ d := fun d => ne_of_isWord word
  have notDash : b ≠ '-' := by
    rintro rfl
    rcases letter with no | no <;> cases no
  simp [isIndicator, flow, notDash, ne '?' (by decide), ne ':' (by decide), ne '#' (by decide),
    ne '&' (by decide), ne '*' (by decide), ne '!' (by decide), ne '|' (by decide),
    ne '>' (by decide), ne '\'' (by decide), ne '"' (by decide), ne '%' (by decide),
    ne '@' (by decide), ne '\x60' (by decide)]

theorem IsIdentifier.isWord {w : List Char} (key : IsIdentifier w) :
    ∀ c ∈ w, isWord c = true := by
  obtain ⟨b, rest, rfl, letter, word⟩ := key
  intro c mem
  rcases List.mem_cons.mp mem with rfl | mem
  · exact isWord_of_isAlpha letter
  · exact word c mem

theorem isWord_of_all {flow : Bool} {w : List Char} (words : ∀ c ∈ w, isWord c = true) :
    IsWord flow w := by
  induction w with
  | nil => trivial
  | cons c w ih =>
    obtain ⟨noBlank, noBreak, noIndicator, noColon, -⟩ := class_of_isWord (words c (by simp))
    exact ⟨noBlank, noBreak, fun _ => noIndicator, fun colon => absurd colon noColon,
      ih fun d mem => words d (by simp [mem])⟩

theorem IsIdentifier.fits {w : List Char} (key : IsIdentifier w) : w ≠ [] ∧ IsWord false w := by
  refine ⟨?_, isWord_of_all key.isWord⟩
  obtain ⟨b, rest, rfl, -⟩ := key
  simp

theorem byteCount_eq_length {s : List Char} (small : ∀ c ∈ s, c.utf8Size = 1) :
    Cursor.byteCount s = s.length := by
  induction s with
  | nil => rfl
  | cons c s ih =>
    rw [Cursor.byteCount, small c (by simp), ih fun d mem => small d (by simp [mem]),
      List.length_cons, Nat.add_comm]

namespace Scan

variable {s t : Scan} {a : Spot} {rest : List Char}

theorem closeBlocks_eq {column : Int} (inside : s.indent ≤ column) : s.closeBlocks column = s := by
  unfold closeBlocks
  split
  · rfl
  · cases outers : s.outerIndents with
    | nil =>
      cases s
      simp_all [closeBlocks.go]
    | cons outer rest =>
      rw [closeBlocks.go, if_neg (by omega), ← outers]

/-- The start of a key at the place of a scan. -/
def startHere (t : Scan) : KeyStart where
  number := t.tokens.length
  required := !t.inFlow && t.indent = t.place.column
  index := t.place.index
  line := t.place.line
  column := t.place.column

/-- A key that may start at the place is kept while it is on one line and not too long. -/
theorem dropStale_fresh {k : KeyStart} (start : s.keyStart = some k) (outer : s.outerStarts = [])
    (line : k.line = s.place.line) (short : s.place.index ≤ k.index + 1024) :
    s.dropStale = some s := by
  have fresh : isStale s.place k = false := by
    simp only [isStale, line, Nat.lt_irrefl, decide_false, Bool.false_or, decide_eq_false_iff_not]
    omega
  cases s
  simp_all [dropStale]

/-- A key is read as a scalar up to its colon. -/
theorem readToken_key {w bs : List Char} (key : IsIdentifier w) (blank : AreBlanks true bs)
    (split : t.place.rest = w ++ (bs ++ (':' :: rest))) (ends : endsWord rest.head? = true)
    (is : t.Is a) (block : a.depth = 0) (allowed : a.keyAllowed = true) :
    t.readToken = some (t.scanned (some t.startHere) (.scalar w .plain)
      ((t.place.advance w.length).advance bs.length) false) := by
  have flow : t.inFlow = false := by simp [is.inFlow, block]
  obtain ⟨b, tail, here, letter⟩ : ∃ b tail, t.place.rest = b :: tail ∧
      (b.isAlpha = true ∨ b = '_') := by
    obtain ⟨b, tail, rfl, letter, -⟩ := key
    exact ⟨b, _, split, letter⟩
  have other := isIndicator_of_isAlpha letter
  obtain ⟨noBlank, noBreak, -, -, -, noDot, -⟩ := class_of_isWord (isWord_of_isAlpha letter)
  have noHash : b ≠ '#' := ne_of_isIndicator other (by decide)
  have token : t.readToken = t.readPlainScalar :=
    readToken_plain here (.inl ⟨other, noBlank, noBreak⟩) (.inr ⟨other, noDot⟩)
  have marker : t.place.atDocumentMarker = false := by
    have notDash : t.place.atMarker '-' = false :=
      atMarker_eq_false here (.inr (ne_of_isIndicator other (by decide)))
    have notDot : t.place.atMarker '.' = false := atMarker_eq_false here (.inr noDot)
    simp [Cursor.atDocumentMarker, notDash, notDot]
  have reads : readPlain t.inFlow (t.indent + 1) [] .empty t.place =
      some ⟨w, false, (t.place.advance w.length).advance bs.length⟩ := by
    have stops : EndsPlain false (t.indent + 1) (.blanks bs) (':' :: rest) :=
      { fits := blank
        apart := trivial
        notBlank := by
          rintro d ⟨⟩
          decide
        ends := .inl (endsRun_colon ends) }
    have hash : t.place.rest.head? ≠ some '#' := by
      rw [here]
      simpa using noHash
    rw [flow, readPlain_last split key.fits.1 key.fits.2 stops marker hash]
    simp [Gap.empty, Gap.folded, Spacing.bare, Spacing.broken, Spacing.after]
  have marks : t.markKey = some { t with keyStart := some t.startHere } := by
    rw [Scan.markKey, if_pos (is.allowed.trans allowed), dropKey_eq is.free]
    rfl
  rw [token, readPlainScalar, marks, reads]
  rfl

end Scan

theorem IsIdentifier.byteCount {w bs : List Char} (key : IsIdentifier w)
    (blank : AreBlanks true bs) : Cursor.byteCount (w ++ bs) = (w ++ bs).length := by
  apply byteCount_eq_length
  intro c mem
  rcases List.mem_append.mp mem with mem | mem
  · exact (class_of_isWord (key.isWord c mem)).2.2.2.2.2.2
  · rcases blank c mem with rfl | ⟨-, rfl⟩ <;> decide

theorem Scan.readValue_eq {s : Scan} {k : KeyStart} (start : s.keyStart = some k) :
    s.readValue = some
      { ({ s with tokens := s.tokens.insertIdx k.number .key }.openBlock k.column k.number
          .blockMapping).take 1 .value with keyStart := none, keyAllowed := false } := by
  unfold readValue
  split
  · rename_i k' start'
    rw [start] at start'
    cases start'
    rfl
  · rename_i none
    rw [start] at none
    cases none

/-- The colon of a key that may start: the key stands before the scalar, and may open a block. -/
theorem Scan.Is.readToken_colon {t : Scan} {a : Spot} {place : Cursor} {rest : List Char}
    (is : t.Is a) (token : Token) (block : a.depth = 0) (left : place.rest = ':' :: rest)
    (ends : endsWord rest.head? = true) :
    (t.scanned (some t.startHere) token place false).readToken = some
      ((t.opening a.column .blockMapping t.tokens [.key, token]).scanned none .value
        (place.advance 1) false) := by
  have flow : t.inFlow = false := by simp [is.inFlow, block]
  generalize same : t.scanned (some t.startHere) token place false = v
  have here : v.place.rest = ':' :: rest := by
    rw [← same]
    exact left
  have start : v.keyStart = some t.startHere := same ▸ rfl
  have tokens : v.tokens.insertIdx t.tokens.length .key = t.tokens ++ [.key, token] := by
    rw [← same]
    exact insertIdx_append _ _ _
  have flow' : ({ v with tokens := t.tokens ++ [.key, token] } : Scan).inFlow = false := by
    rw [← same]
    exact flow
  rw [Scan.readToken_colon here (.inr ends), readValue_eq start]
  simp only [startHere, tokens, openBlock_eq flow' rfl, is.column]
  rw [← same]
  rfl

/-- The scalar before a colon becomes a key, which may open a block. -/
theorem Scan.Is.colon {t : Scan} {a : Spot} {place : Cursor} {rest : List Char} (is : t.Is a)
    (token : Token) (block : a.depth = 0) (inside : a.indent ≤ place.column)
    (left : place.rest = ':' :: rest) (ends : endsWord rest.head? = true)
    (line : t.place.line = place.line) (short : place.index ≤ t.place.index + 1024) :
    ∃ u, (t.scanned (some t.startHere) token place false).step = some u ∧
      u.Stands { a.opened a.column .blockMapping with
        rest
        column := place.column + 1
        tokens := (a.opened a.column .blockMapping).tokens ++ [.key, token, .value]
        keyAllowed := false } ∧
      u.place.rest.length < place.rest.length := by
  have outer : t.outerStarts = [] := List.length_eq_zero_iff.mp (is.depth.trans block)
  have reads := is.readToken_colon token block left ends
  generalize same : t.scanned (some t.startHere) token place false = v at reads
  have here : v.place = place := same ▸ rfl
  have starts : StartsToken v.place.rest := by
    rw [here, left]
    exact Reaches.startsToken_mark (by simp)
  have fresh : v.dropStale = some v := by
    subst same
    exact dropStale_fresh rfl outer line short
  have whole : v.whole = true := same ▸ is.whole
  have closed : v.closeBlocks v.place.column = v := by
    apply closeBlocks_eq
    rw [here, ← same]
    exact is.indent ▸ inside
  have left' : place.rest = [':'] ++ rest := left
  have after : (place.advance 1).rest = rest := Cursor.rest_advance left'
  have atEnd := (is.opening a.column .blockMapping [.key, token]).scanned (k := none) (by simp)
    .value (place.advance 1) false
  rw [after, List.append_assoc] at atEnd
  obtain ⟨u, step, stands, place'⟩ := atEnd.of_token reads starts fresh whole closed
  refine ⟨u, step, stands, ?_⟩
  rw [place', left]
  change (place.advance 1).rest.length < _
  rw [after]
  simp

/-- The colon of a key is on the line of the key. -/
theorem IsIdentifier.colon_place {w bs rest : List Char} {c : Cursor} (key : IsIdentifier w)
    (blank : AreBlanks true bs) (split : c.rest = w ++ (bs ++ (':' :: rest))) :
    ∃ place : Cursor, (c.advance w.length).advance bs.length = place ∧ place.rest = ':' :: rest ∧
      place.line = c.line ∧ place.index = c.index + (w ++ bs).length ∧
        place.column = c.column + (w ++ bs).length := by
  have split : c.rest = (w ++ bs) ++ (':' :: rest) := by rw [split, List.append_assoc]
  refine ⟨c.advance (w ++ bs).length, ?_, Cursor.rest_advance split, rfl, ?_, rfl⟩
  · rw [Cursor.advance_advance, List.length_append]
  · rw [Cursor.advance, split, List.take_left, key.byteCount blank]

theorem IsIdentifier.startsToken {w : List Char} (key : IsIdentifier w) (rest : List Char) :
    StartsToken (w ++ rest) := by
  obtain ⟨b, tail, rfl, letter, -⟩ := key
  obtain ⟨noBlank, noBreak, -, -, noMark, -⟩ := class_of_isWord (isWord_of_isAlpha letter)
  rintro d ⟨⟩
  exact ⟨noBlank, noBreak, ne_of_isIndicator (isIndicator_of_isAlpha letter) (by decide), noMark⟩

/-- Over a key up to its colon, which a key may precede. -/
theorem Scan.Stands.step_key {s : Scan} {a : Spot} {sp : Spacing} {w bs rest : List Char}
    (stands : s.Stands a) (split : a.rest = sp.text ++ (w ++ (bs ++ (':' :: rest))))
    (fits : sp.Fits a.tabs) (key : IsIdentifier w) (blank : AreBlanks true bs)
    (short : (w ++ bs).length ≤ 1024) (ends : endsWord rest.head? = true) (block : a.depth = 0)
    (allowed : (a.keyAllowed || sp.broken) = true) :
    ∃ v, s.step = some v ∧ (∃ (t : Scan) (place : Cursor),
      t.Is ((a.past sp (w ++ (bs ++ (':' :: rest)))).closed (sp.column a.column)) ∧
        (t.place.advance w.length).advance bs.length = place ∧
        v = t.scanned (some t.startHere) (.scalar w .plain) place false) ∧
      v.place.rest.length < s.place.rest.length := by
  refine stands.step_of split fits (key.startsToken _) fun t is => ?_
  have allowed' : ((a.past sp (w ++ (bs ++ (':' :: rest)))).closed
      (sp.column a.column)).keyAllowed = true := by
    simpa [Spot.closed, Spot.past, block] using allowed
  have reads := Scan.readToken_key key blank is.rest ends is block allowed'
  obtain ⟨place, here, left, line, index, -⟩ := key.colon_place blank is.rest
  rw [here] at reads
  have outer : t.outerStarts = [] := List.length_eq_zero_iff.mp (is.depth.trans block)
  refine ⟨_, _, reads, is.whole, dropStale_fresh rfl outer line.symm ?_,
    ⟨t, place, is, here, rfl⟩, ?_⟩
  · change place.index ≤ t.place.index + 1024
    omega
  · have nonempty := List.length_pos_iff.mpr key.fits.1
    change place.rest.length < _
    rw [left]
    simp only [List.length_append, List.length_cons]
    omega

/-- Over a key and its colon, which may be the first ones of a block. -/
theorem Reaches.key {a : Spot} {sp : Spacing} {w bs rest : List Char} {column : Nat}
    (split : a.rest = sp.text ++ (w ++ (bs ++ (':' :: rest)))) (fits : sp.Fits a.tabs)
    (key : IsIdentifier w) (blank : AreBlanks true bs) (short : (w ++ bs).length ≤ 1024)
    (ends : endsWord rest.head? = true) (block : a.depth = 0)
    (allowed : (a.keyAllowed || sp.broken) = true) (at' : column = sp.column a.column)
    (inside : (a.closed column).indent ≤ column) :
    Reaches a { (a.closed column).opened column .blockMapping with
      rest
      column := column + (w ++ bs).length + 1
      tokens := ((a.closed column).opened column .blockMapping).tokens ++
        [.key, .scalar w .plain, .value]
      keyAllowed := false } := by
  subst at'
  intro s stands
  obtain ⟨v, step, ⟨t, place, is, here, rfl⟩, shorter⟩ :=
    stands.step_key split fits key blank short ends block allowed
  obtain ⟨place', here', left, line, index, column⟩ := key.colon_place blank is.rest
  obtain rfl : place = place' := here.symm.trans here'
  have column : place.column = sp.column a.column + (w ++ bs).length := by
    rw [column, is.column]
    rfl
  obtain ⟨u, step', stands', shorter'⟩ := is.colon (.scalar w .plain) block (by
    change (a.closed _).indent ≤ _
    omega) left ends line.symm (by omega)
  rw [column] at stands'
  refine ⟨u, stands', ?_⟩
  have notEnd : (t.scanned (some t.startHere) (.scalar w .plain) place false).tokens.getLast? ≠
      some .textEnd := by
    change (t.tokens ++ [Token.scalar w .plain]).getLast? ≠ _
    simp
  have notEnd' : u.tokens.getLast? ≠ some .textEnd := by
    rw [stands'.tokens]
    simp
  exact (Tokens.ofScan_step step notEnd shorter).trans (Tokens.ofScan_step step' notEnd' shorter')

end Spindle.Yaml
