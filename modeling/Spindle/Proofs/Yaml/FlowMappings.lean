import Spindle.Proofs.Yaml.Events
import Spindle.Proofs.Yaml.Mappings

/-!
# Flow mappings

A mapping inside of brackets, with keys between double quotes right before their colons. A scan
goes over it entry by entry, and its events are those of its keys and values.
-/

namespace Spindle.Yaml

/-! ## Keys -/

namespace Scan

variable {s t : Scan} {a : Spot} {rest : List Char}

/-- The start of a key is kept while it is on one line and not too long, whatever becomes of those
outside of the brackets. -/
theorem dropStale_keeps {k : KeyStart} (start : s.keyStart = some k)
    (free : ∀ k', some k' ∈ s.keyStart :: s.outerStarts → k'.required = false)
    (line : k.line = s.place.line) (short : s.place.index ≤ k.index + 1024) :
    ∃ ks, s.dropStale = some (s.withKeys (some k) ks) ∧ ks.length = s.outerStarts.length ∧
      ∀ k', some k' ∈ some k :: ks → k'.required = false := by
  have fresh : isStale s.place k = false := by
    simp only [isStale, line, Nat.lt_irrefl, decide_false, Bool.false_or, decide_eq_false_iff_not]
    omega
  obtain ⟨k', ks, drops, length, free⟩ := dropStale_eq free
  obtain rfl : k' = some k := by
    have kept := drops
    unfold dropStale at kept
    split at kept
    · cases kept
    · have same := congrArg Scan.keyStart (Option.some.inj kept)
      simp only [start, Option.filter_some, fresh, Bool.not_false, if_true] at same
      exact same.symm
  exact ⟨ks, drops, length, free⟩

/-- A quoted scalar where a key may start. -/
theorem readToken_quotedKey {ps : List Piece} (fits : ∀ p ∈ ps, p.Fits false)
    (split : t.place.rest = (Words.last ps).quoted false ++ rest) (is : t.Is a)
    (allowed : a.keyAllowed = true) :
    t.readToken = some (t.scanned (some t.startHere) (.scalar (ps.map Piece.value) .doubleQuoted)
      (t.place.advance ((Words.last ps).quoted false).length) false) := by
  have length : ((Words.last ps).quoted false).length =
      1 + (Piece.spell false ps).length + 1 := by
    simp [Words.quoted, Words.spelled, Words.mapRuns, Words.text]
    omega
  have marks : t.markKey = some { t with keyStart := some t.startHere } := by
    rw [markKey, if_pos (is.allowed.trans allowed), dropKey_eq is.free]
    rfl
  have words : (Words.last ps).FitsQuoted false := fits
  rw [readToken_quotedWords split words (by simp) marks, length, ← Cursor.advance_advance,
    ← Cursor.advance_advance]
  rfl

/-- Whether a scan is at a spot where a colon makes a key of the tokens after the first `number`. -/
structure AfterKey (s : Scan) (a : Spot) (number : Nat) : Prop where
  is : s.Is a
  start : ∃ k, s.keyStart = some k ∧ k.number = number ∧ k.line = s.place.line ∧
    s.place.index ≤ k.index + 1024

/-- Over a quoted scalar that may be a key. -/
theorem Stands.step_quotedKey {sp : Spacing} {ps : List Piece} (stands : s.Stands a)
    (split : a.rest = sp.text ++ ((Words.last ps).quoted false ++ rest)) (fits : sp.Fits a.tabs)
    (isOpen : a.depth ≠ 0) (allowed : a.keyAllowed = true) (key : ∀ p ∈ ps, p.Fits false)
    (short : Cursor.byteCount ((Words.last ps).quoted false) ≤ 1024) :
    ∃ v, s.step = some v ∧ v.AfterKey { a with
      rest
      column := sp.column a.column + ((Words.last ps).quoted false).length
      tokens := a.tokens ++ [.scalar (ps.map Piece.value) .doubleQuoted]
      keyAllowed := false } a.tokens.length ∧
      v.place.rest.length < s.place.rest.length := by
  generalize text : (Words.last ps).quoted false = w at *
  have starts : StartsToken (w ++ rest) := by
    rw [← text]
    rintro d ⟨⟩
    decide
  refine stands.step_of split fits starts fun t is => ?_
  rw [Spot.closed_eq (a := a.past sp _) fun block => absurd block isOpen] at is
  have here : t.place.rest = w ++ rest := is.rest
  have after : (t.place.advance w.length).rest = rest := Cursor.rest_advance here
  have column : (t.place.advance w.length).column = sp.column a.column + w.length :=
    congrArg (· + w.length) is.column
  have index : (t.place.advance w.length).index ≤ t.place.index + 1024 := by
    rw [Cursor.advance, here, List.take_left]
    exact Nat.add_le_add_left short _
  have flow : t.inFlow = true := by simp [is.inFlow, Spot.past, isOpen]
  have reads := readToken_quotedKey key (text ▸ here) is (by simp [Spot.past, allowed])
  rw [text] at reads
  have free : ∀ k, some t.startHere = some k → k.required = false := by
    rintro k ⟨⟩
    simp [startHere, flow]
  have read := is.scanned free (.scalar (ps.map Piece.value) .doubleQuoted)
    (t.place.advance w.length) false
  obtain ⟨ks, drops, length, free⟩ := dropStale_keeps (k := t.startHere) rfl read.free rfl index
  have atEnd := read.withKeys length free
  rw [after, column] at atEnd
  refine ⟨_, _, reads, is.whole, drops, ⟨atEnd, t.startHere, rfl, ?_, rfl, index⟩, ?_⟩
  · exact congrArg List.length is.tokens
  · change (t.place.advance w.length).rest.length < _
    rw [after, ← text]
    simp [Words.quoted]
    omega

/-- The colon of a key inside of brackets. -/
theorem AfterKey.colon {before after : List Token} (key : s.AfterKey a before.length)
    (isOpen : a.depth ≠ 0) (left : a.rest = ':' :: rest) (tokens : a.tokens = before ++ after) :
    ∃ u, s.step = some u ∧
      u.Stands { a with
        rest
        column := a.column + 1
        tokens := before ++ .key :: (after ++ [.value])
        keyAllowed := false } ∧
      u.place.rest.length < s.place.rest.length := by
  obtain ⟨is, k, start, number, line, short⟩ := key
  obtain ⟨ks, drops, length, free⟩ := dropStale_keeps start is.free line short
  have is' := is.withKeys length free
  generalize same : s.withKeys (some k) ks = t at drops is'
  have place : t.place = s.place := same ▸ rfl
  have here : t.place.rest = [':'] ++ rest := is'.rest.trans left
  have starts : StartsToken s.place.rest := by
    rw [is.rest, left]
    exact Reaches.startsToken_mark (by simp)
  have flow : t.inFlow = true := by simp [is'.inFlow, isOpen]
  have closed : t.closeBlocks t.place.column = t := by simp [Scan.closeBlocks, flow]
  have inserted : t.tokens.insertIdx k.number .key = before ++ .key :: after := by
    rw [is'.tokens, tokens, number, insertIdx_append]
  have keyed : ({ t with tokens := before ++ .key :: after } : Scan).Is
      { a with tokens := before ++ .key :: after } := { is' with tokens := rfl }
  have reads : t.readToken = some
      (({ t with tokens := before ++ .key :: after } : Scan).scanned none .value
        (t.place.advance 1) false) := by
    have kept : t.keyStart = some k := same ▸ rfl
    have flow' : ({ t with tokens := before ++ .key :: after } : Scan).inFlow = true := flow
    rw [Scan.readToken_colon here (.inl flow), readValue_eq kept, inserted]
    simp [openBlock, flow', take, scanned, push]
  have next : (t.place.advance 1).rest = rest := Cursor.rest_advance here
  have atEnd := keyed.scanned (k := none) (by simp) .value (t.place.advance 1) false
  have column : (t.place.advance 1).column = a.column + 1 := congrArg (· + 1) is'.column
  rw [next, column, List.append_assoc] at atEnd
  obtain ⟨u, step, stands, place'⟩ := atEnd.of_token reads starts drops is'.whole closed
  refine ⟨u, step, stands, ?_⟩
  rw [place', ← place, here]
  change (t.place.advance 1).rest.length < _
  rw [next]
  simp

end Scan

/-- Over a key between double quotes and its colon. -/
theorem Reaches.flowKey {a : Spot} {sp : Spacing} {ps : List Piece} {rest : List Char}
    (split : a.rest = sp.text ++ ((Words.last ps).quoted false ++ (':' :: rest)))
    (fits : sp.Fits a.tabs) (isOpen : a.depth ≠ 0) (allowed : a.keyAllowed = true)
    (key : ∀ p ∈ ps, p.Fits false)
    (short : Cursor.byteCount ((Words.last ps).quoted false) ≤ 1024) :
    Reaches a { a with
      rest
      column := sp.column a.column + ((Words.last ps).quoted false).length + 1
      tokens := a.tokens ++ [.key, .scalar (ps.map Piece.value) .doubleQuoted, .value]
      keyAllowed := false } := by
  -- The spot between the scalar and the colon does not say that a key may have started, so both
  -- steps are taken at once.
  intro s stands
  obtain ⟨v, step, afterKey, shorter⟩ := stands.step_quotedKey split fits isOpen allowed key short
  obtain ⟨u, step', stands', shorter'⟩ := afterKey.colon isOpen rfl rfl
  refine ⟨u, by simpa using stands', ?_⟩
  have notEnd : v.tokens.getLast? ≠ some .textEnd := by
    rw [afterKey.is.tokens]
    simp
  have notEnd' : u.tokens.getLast? ≠ some .textEnd := by
    rw [stands'.tokens]
    simp
  exact (Tokens.ofScan_step step notEnd shorter).trans (Tokens.ofScan_step step' notEnd' shorter')

/-! ## Entries -/

/-- Whether a value can stand inside of brackets. -/
def ValueText.FitsInside : ValueText → Prop
  | slot s => ∀ p ∈ s, p.before.FitsInside ∧ p.scalar.Fits true 0
  | items _ _ => False
  | brackets b => b.before.FitsInside ∧ b.FitsInner

/-- Block sequences do not stand inside of brackets. -/
def Node.InFlow : Node → Prop
  | scalar _ => True
  | sequence _ _ _ => False
  | brackets _ _ => True

theorem ValueText.Means.inFlow {n : Nat} {v : ValueText} {node : Node} (means : v.Means n node)
    (fits : v.FitsInside) : node.InFlow := by
  cases means with
  | slot => trivial
  | items => exact fits
  | brackets => trivial

/-- A key between double quotes and its value, with the spacing around them. -/
structure FlowEntry where
  before : Spacing
  key : List Piece
  value : ValueText
  after : Spacing

namespace FlowEntry

def quotedKey (x : FlowEntry) : List Char := (Words.last x.key).quoted false

def text (x : FlowEntry) : List Char :=
  x.before.text ++ (x.quotedKey ++ (':' :: (x.value.text ++ x.after.text)))

/-- The entries after the first one, with the commas before them. -/
def moreText (xs : List FlowEntry) : List Char := xs.flatMap fun x => ',' :: x.text

/-- A mapping of some entries. -/
def mapping : List FlowEntry → List Char
  | [] => ['\x7b', '\x7d']
  | x :: xs => '\x7b' :: (x.text ++ (moreText xs ++ ['\x7d']))

structure Fits (x : FlowEntry) : Prop where
  before : x.before.FitsInside
  key : ∀ p ∈ x.key, p.Fits false
  short : Cursor.byteCount x.quotedKey ≤ 1024
  value : x.value.FitsInside
  after : x.after.FitsInside

def Means (p : Pair) (x : FlowEntry) : Prop :=
  p.key = x.key.map Piece.value ∧ x.value.Means 0 p.node

theorem Means.inFlow {p : Pair} {x : FlowEntry} (means : x.Means p) (fits : x.Fits) :
    p.node.InFlow := means.2.inFlow fits.value

end FlowEntry

namespace Pair

/-- The tokens of a pair whose key is quoted. -/
def quotedTokens (p : Pair) : List Token :=
  .key :: .scalar p.key .doubleQuoted :: .value :: p.node.tokens

def moreTokens (ps : List Pair) : List Token := ps.flatMap fun p => .flowEntry :: p.quotedTokens

/-- The tokens of a mapping inside of brackets. -/
def flowTokens : List Pair → List Token
  | [] => [.flowMapping, .flowMappingEnd, .textEnd]
  | p :: ps => .flowMapping :: (p.quotedTokens ++ (moreTokens ps ++ [.flowMappingEnd, .textEnd]))

end Pair

section
variable {a : Spot} {next : Spacing} {rest : List Char}

/-- Over a value inside of brackets. -/
theorem Arrives.valueInside {v : ValueText} {b : Char}
    (split : a.rest = v.text ++ (next.text ++ (b :: rest))) (isOpen : a.depth ≠ 0)
    (column : a.column ≠ 0) (fits : v.FitsInside) (fits' : next.FitsInside)
    (mark : isFlowIndicator b = true) :
    Arrives a fun d => ∃ node column keyAllowed, v.Means 0 node ∧ d = { a with
      rest := next.text ++ (b :: rest)
      column
      tokens := a.tokens ++ node.tokens
      keyAllowed } := by
  cases v with
  | slot s =>
    refine .bind (.lastInside split isOpen column fits fits' mark) ?_
    rintro d ⟨c, column, keyAllowed, means, rfl⟩
    exact .here ⟨.scalar c, column, keyAllowed, .slot means, rfl⟩
  | items k is => exact fits.elim
  | brackets b =>
    have tabs : b.before.Fits a.tabs := by simpa [Spot.tabs, isOpen] using fits.1.fits
    refine .bind (.bracketed split tabs (fun block => absurd block isOpen) fits.2) ?_
    rintro d ⟨cs, last, column, members, means, rfl⟩
    exact .here ⟨.brackets cs last, column, false, .brackets members means, rfl⟩

/-- Over an entry, up to the spacing after it. -/
theorem Arrives.flowEntry {x : FlowEntry} {b : Char} (split : a.rest = x.text ++ (b :: rest))
    (isOpen : a.depth ≠ 0) (allowed : a.keyAllowed = true) (fits : x.Fits)
    (mark : isFlowIndicator b = true) :
    Arrives a fun d => ∃ p column keyAllowed, x.Means p ∧ d = { a with
      rest := x.after.text ++ (b :: rest)
      column
      tokens := a.tokens ++ p.quotedTokens
      keyAllowed } := by
  have split : a.rest = x.before.text ++ (x.quotedKey ++
      (':' :: (x.value.text ++ (x.after.text ++ (b :: rest))))) := by
    simpa [FlowEntry.text] using split
  have tabs : x.before.Fits a.tabs := by simpa [Spot.tabs, isOpen] using fits.before.fits
  refine .bind ((Reaches.flowKey split tabs isOpen allowed fits.key fits.short).arrives rfl) ?_
  rintro d rfl
  refine .bind (.valueInside rfl isOpen (by simp) fits.value fits.after mark) ?_
  rintro d ⟨node, column, keyAllowed, means, rfl⟩
  refine .here ⟨⟨x.key.map Piece.value, node⟩, column, keyAllowed, ⟨rfl, means⟩, ?_⟩
  simp [Pair.quotedTokens]

/-- After an entry comes a comma or the end of the mapping. -/
theorem FlowEntry.head_moreText (xs : List FlowEntry) (rest : List Char) :
    ∃ b tail, moreText xs ++ ('\x7d' :: rest) = b :: tail ∧ isFlowIndicator b = true := by
  cases xs with
  | nil => exact ⟨_, _, rfl, rfl⟩
  | cons x xs => exact ⟨_, _, rfl, rfl⟩

/-- Over the entries after the first one. -/
theorem Arrives.flowEntries {xs : List FlowEntry}
    (split : a.rest = next.text ++ (FlowEntry.moreText xs ++ ('\x7d' :: rest)))
    (isOpen : a.depth ≠ 0) (fits : next.FitsInside) (entries : ∀ x ∈ xs, x.Fits) :
    Arrives a fun d => ∃ ps, ∃ last : Spacing, ∃ column keyAllowed,
      List.Forall₂ FlowEntry.Means ps xs ∧ last.FitsInside ∧ d = { a with
        rest := last.text ++ ('\x7d' :: rest)
        column
        tokens := a.tokens ++ Pair.moreTokens ps
        keyAllowed } := by
  induction xs generalizing a next with
  | nil =>
    refine .here ⟨[], next, a.column, a.keyAllowed, .nil, fits, ?_⟩
    cases a
    simp_all [FlowEntry.moreText, Pair.moreTokens]
  | cons x xs ih =>
    obtain ⟨b, tail, more, mark⟩ := FlowEntry.head_moreText xs rest
    have split : a.rest = next.text ++ (',' :: (x.text ++ (b :: tail))) := by
      rw [split, ← more]
      simp [FlowEntry.moreText]
    have entry := entries x (by simp)
    have comma := Reaches.comma split (by simpa [Spot.tabs, isOpen] using fits.fits) isOpen
    refine .bind (comma.arrives rfl) ?_
    rintro d rfl
    refine .bind (.flowEntry rfl isOpen rfl entry mark) ?_
    rintro d ⟨p, column, keyAllowed, means, rfl⟩
    have left : x.after.text ++ (b :: tail) =
        x.after.text ++ (FlowEntry.moreText xs ++ ('\x7d' :: rest)) := by rw [more]
    refine .bind (ih left isOpen entry.after fun x mem => entries x (by simp [mem])) ?_
    rintro d ⟨ps, last, column, keyAllowed, all, fits, rfl⟩
    refine .here ⟨p :: ps, last, column, keyAllowed, .cons means all, fits, ?_⟩
    simp [Pair.moreTokens]

end

/-! ## Whole texts -/

/-- From the start of the text to its end. -/
theorem FlowEntry.arrives {xs : List FlowEntry} (fits : ∀ x ∈ xs, x.Fits) :
    Arrives (.start (mapping xs)) fun d => ∃ ps, List.Forall₂ Means ps xs ∧ d.rest = [] ∧
      (d.closed (-1)).tokens ++ [.textEnd] = Pair.flowTokens ps := by
  have opens : ∀ rest, Reaches (.start ('\x7b' :: rest)) { Spot.start ('\x7b' :: rest) with
      rest, column := 1, tokens := [.flowMapping], depth := 1 } := by
    intro rest
    have split : (Spot.start ('\x7b' :: rest)).rest =
        (Spacing.blanks []).text ++ (Bracket.curly.opening :: rest) := rfl
    have outside : (-1 : Int) < (0 : Nat) := by decide
    exact Reaches.openBracket .curly split (List.forall_mem_nil _) fun _ => outside
  have closes : ∀ {a : Spot} {sp : Spacing}, a.rest = sp.text ++ ['\x7d'] → sp.FitsInside →
      a.depth = 1 → a.outers = [] → Arrives a fun d => d.rest = [] ∧
        (d.closed (-1)).tokens ++ [.textEnd] = a.tokens ++ [.flowMappingEnd, .textEnd] := by
    intro a sp split fits depth outers
    have tabs : sp.Fits a.tabs := by simpa [Spot.tabs, depth] using fits.fits
    refine (Reaches.closeBracket .curly split tabs (by omega)).arrives ⟨rfl, ?_⟩
    simp [Spot.closed, Spot.left, Spot.closing, depth, outers, Bracket.closingToken]
  have bare : Spacing.FitsInside (.blanks []) :=
    ⟨List.forall_mem_nil _, trivial, fun no => by cases no⟩
  cases xs with
  | nil =>
    refine .bind ((opens ['\x7d']).arrives rfl) ?_
    rintro d rfl
    have left : ['\x7d'] = (Spacing.blanks []).text ++ ['\x7d'] := rfl
    refine .bind (closes left bare rfl rfl) ?_
    rintro d ⟨rest, tokens⟩
    exact .here ⟨[], .nil, rest, tokens⟩
  | cons x xs =>
    obtain ⟨b, tail, more, mark⟩ := head_moreText xs []
    have split : mapping (x :: xs) = '\x7b' :: (x.text ++ (b :: tail)) := by
      rw [mapping, more]
    rw [split]
    have entry := fits x (by simp)
    refine .bind ((opens _).arrives rfl) ?_
    rintro d rfl
    refine .bind (.flowEntry rfl (by simp) rfl entry mark) ?_
    rintro d ⟨p, column, keyAllowed, means, rfl⟩
    have left : x.after.text ++ (b :: tail) = x.after.text ++ (moreText xs ++ ['\x7d']) := by
      rw [more]
    refine .bind (.flowEntries left (by simp) entry.after fun x mem => fits x (by simp [mem])) ?_
    rintro d ⟨ps, last, column, keyAllowed, all, fits, rfl⟩
    refine .bind (closes rfl fits rfl rfl) ?_
    rintro d ⟨rest, tokens⟩
    refine .here ⟨p :: ps, .cons means all, rest, ?_⟩
    rw [tokens]
    simp [Pair.flowTokens]

theorem FlowEntry.tokens {xs : List FlowEntry} (fits : ∀ x ∈ xs, x.Fits)
    (allowed : ∀ c ∈ mapping xs, isAllowed c = true) :
    ∃ ps, List.Forall₂ Means ps xs ∧ (Tokens.ofText (mapping xs)).tokens = Pair.flowTokens ps := by
  obtain ⟨d, t, ⟨ps, means, rest, tokens⟩, stands, same⟩ :=
    arrives fits (Scan.start (mapping xs) true) (Scan.start_is _).stands
  have whole : Tokens.allowedPart [] [] 0 (mapping xs) = (mapping xs, true) :=
    allowedPart_eq allowed _ _ _
  have atEnd : d.rest = (Spacing.blanks []).text ++ [] := rest
  refine ⟨ps, means, ?_⟩
  rw [Tokens.ofText, whole]
  simp only
  rw [same, stands.ofScan_end atEnd (List.forall_mem_nil _) (.inl rfl)]
  exact tokens

/-! ## Events -/

namespace Pair

def flowEvents (ps : List Pair) : List Event :=
  .mappingStart :: (ps.flatMap (eventsIn .doubleQuoted) ++ [.mappingEnd])

/-- After a pair comes a comma or the end of the mapping. -/
theorem head_moreTokens (ps : List Pair) (ts : List Token) :
    ∃ t tail, moreTokens ps ++ .flowMappingEnd :: ts = t :: tail ∧
      (t = .flowEntry ∨ t = .flowMappingEnd) := by
  cases ps with
  | nil => exact ⟨_, _, rfl, .inr rfl⟩
  | cons p ps => exact ⟨_, _, rfl, .inl rfl⟩

end Pair

namespace Takes

variable {dues : List Due} {ts : List Token} {t : Token}

theorem flowValue {node : Node} (inFlow : node.InFlow)
    (ends : t = .flowEntry ∨ t = .flowMappingEnd) :
    Takes (.flowValue :: dues) (.value :: (node.tokens ++ t :: ts)) node.events
      (.flowKey false :: dues) (t :: ts) := by
  cases node with
  | scalar c =>
    refine .optional c (fun d ts => rfl) ?_ ?_
    · rcases ends with rfl | rfl <;> decide
    · intro c
      simp [Content.token]
  | sequence => exact inFlow.elim
  | brackets cs last =>
    have opens : Takes (.flowValue :: dues) (.value :: .flowSequence ::
        (cs.flatMap (fun c => [c.token, .flowEntry]) ++
          (Content.tokens last ++ .flowSequenceEnd :: t :: ts))) [.sequenceStart]
        (.flowItem true :: .flowKey false :: dues)
        (cs.flatMap (fun c => [c.token, .flowEntry]) ++
          (Content.tokens last ++ .flowSequenceEnd :: t :: ts)) :=
      .step_then [.flowKey false] [.flowItem true] (fun d => rfl) (fun d => rfl) (by simp)
    simpa [Node.tokens, Node.events] using opens.trans (.brackets cs last)

/-- Over a pair, with the comma before it if it is not the first one. -/
theorem flowPair {p : Pair} {lead : List Token} {first : Bool} (inFlow : p.node.InFlow)
    (leads : first = true ∧ lead = [] ∨ first = false ∧ lead = [.flowEntry])
    (ends : t = .flowEntry ∨ t = .flowMappingEnd) :
    Takes (.flowKey first :: dues) (lead ++ (p.quotedTokens ++ t :: ts))
      (p.eventsIn .doubleQuoted) (.flowKey false :: dues) (t :: ts) := by
  have key : Takes (.flowKey first :: dues) (lead ++ .key :: .scalar p.key .doubleQuoted ::
      .value :: (p.node.tokens ++ t :: ts)) [Content.event ⟨p.key, .doubleQuoted⟩]
      (.flowValue :: dues) (.value :: (p.node.tokens ++ t :: ts)) := by
    have scalar : ∀ (d : Draft) (ts : List Token), (Due.node false false).step d
        (.scalar p.key .doubleQuoted :: ts) =
          some (d.addAll [Content.event ⟨p.key, .doubleQuoted⟩], [], ts) :=
      fun d ts => Due.step_scalar false false d ⟨p.key, .doubleQuoted⟩ ts
    rcases leads with ⟨rfl, rfl⟩ | ⟨rfl, rfl⟩
    · exact .step_then [.flowValue] [] (fun d => rfl) (fun d => scalar d _) (by simp)
    · exact .step_then [.flowValue] [] (fun d => rfl) (fun d => scalar d _) (by simp)
  exact key.trans (.flowValue inFlow ends)

theorem flowPairs {ps : List Pair} (inFlow : ∀ p ∈ ps, p.node.InFlow) :
    Takes (.flowKey false :: dues) (Pair.moreTokens ps ++ .flowMappingEnd :: ts)
      (ps.flatMap (Pair.eventsIn .doubleQuoted)) (.flowKey false :: dues)
      (.flowMappingEnd :: ts) := by
  induction ps with
  | nil => exact ⟨0, by simp [Pair.moreTokens], fun d fuel => rfl⟩
  | cons p ps ih =>
    -- A value may be left out, so it is only known by the token after it where it ends.
    obtain ⟨t, tail, more, ends⟩ := Pair.head_moreTokens ps ts
    have later := ih fun q mem => inFlow q (by simp [mem])
    rw [more] at later
    have both := (flowPair (inFlow p (by simp)) (.inr ⟨rfl, rfl⟩) ends).trans later
    rw [← more] at both
    simpa [Pair.moreTokens] using both

/-- Over a mapping inside of brackets. -/
theorem flowMapping {ps : List Pair} (inFlow : ∀ p ∈ ps, p.node.InFlow) :
    Takes [.node true false] (Pair.flowTokens ps) (Pair.flowEvents ps) [] [.textEnd] := by
  have opens : ∀ ts, Takes [.node true false] (.flowMapping :: ts) [.mappingStart]
      [.flowKey true] ts := fun ts => .step [.flowKey true] fun d => rfl
  have closes : ∀ first, Takes [.flowKey first] [.flowMappingEnd, .textEnd] [.mappingEnd] []
      [.textEnd] := fun first => .step [] fun d => rfl
  cases ps with
  | nil => exact (opens _).trans (closes true)
  | cons p ps =>
    obtain ⟨t, tail, more, ends⟩ := Pair.head_moreTokens ps [.textEnd]
    have later : Takes [.flowKey false] (t :: tail) (ps.flatMap (Pair.eventsIn .doubleQuoted))
        [.flowKey false] [.flowMappingEnd, .textEnd] :=
      more ▸ flowPairs fun q mem => inFlow q (by simp [mem])
    have first : Takes [.flowKey true] (p.quotedTokens ++ t :: tail) (p.eventsIn .doubleQuoted)
        [.flowKey false] (t :: tail) :=
      flowPair (inFlow p (by simp)) (.inl ⟨rfl, rfl⟩) ends
    have all := (((opens _).trans first).trans later).trans (closes false)
    rw [← more] at all
    simpa [Pair.flowTokens, Pair.flowEvents] using all

end Takes

/-- The document of a mapping inside of brackets does not depend on its layout. -/
theorem FlowEntry.document {xs : List FlowEntry} (fits : ∀ x ∈ xs, x.Fits)
    (allowed : ∀ c ∈ mapping xs, isAllowed c = true) :
    ∃ ps, List.Forall₂ Means ps xs ∧
      Document.ofText (String.ofList (mapping xs)) = ⟨Pair.flowEvents ps, [], true⟩ := by
  obtain ⟨ps, means, tokens⟩ := FlowEntry.tokens fits allowed
  have inFlow : ∀ p ∈ ps, p.node.InFlow := by
    intro p mem
    obtain ⟨i, here, rfl⟩ := List.mem_iff_getElem.mp mem
    have there : i < xs.length := means.length_eq ▸ here
    exact (means.get here there).inFlow (fits _ (List.getElem_mem there))
  refine ⟨ps, means, ?_⟩
  rw [Document.ofText, String.toList_ofList, tokens]
  exact Document.ofTokens_of_takes (.flowMapping inFlow) (by cases ps <;> rfl)

end Spindle.Yaml
