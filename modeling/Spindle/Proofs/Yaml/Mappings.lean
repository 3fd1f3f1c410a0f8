import Spindle.Proofs.Yaml.Values

/-!
# Scanning block mappings

A scan goes over a mapping entry by entry, so that its tokens are those of the keys and values
whatever their layout.
-/

namespace Spindle.Yaml

theorem ValueText.Fits.endsWord {n : Nat} {v : ValueText} {next : Spacing} {rest : List Char}
    (fits : v.Fits n) (follows : Follows n v.edge next rest) :
    Yaml.endsWord (v.text ++ (next.text ++ rest)).head? = true := by
  cases v with
  | slot s => exact Slot.Fits.endsWord fits follows
  | brackets b =>
    obtain ⟨leads, -⟩ := fits
    rw [text, Brackets.text, List.append_assoc]
    exact Spacing.endsWord_text leads.fits leads.apart leads.nonempty _
  | items k is =>
    obtain ⟨-, nonempty, items⟩ := fits
    obtain ⟨i, is, rfl⟩ := List.exists_cons_of_ne_nil nonempty
    obtain ⟨⟨-, fits, apart, broken⟩, -⟩ := items
    have split : (ValueText.items k (i :: is)).text ++ (next.text ++ rest) =
        i.before.text ++ ('-' :: (i.slot.text ++ (Item.allText is ++ (next.text ++ rest)))) := by
      simp [text, Item.allText, Item.text]
    rw [split]
    exact Spacing.endsWord_text fits apart (Spacing.text_ne_nil broken) _

variable {a : Spot} {n : Nat} {next : Spacing} {rest : List Char}

/-- Over a key and its value. -/
theorem Arrives.entry {x : Entry} (split : a.rest = x.text ++ (next.text ++ rest))
    (block : a.depth = 0) (spacing : x.before.Fits a.tabs)
    (allowed : (a.keyAllowed || x.before.broken) = true) (column : n = x.before.column a.column)
    (inside : (a.closed n).indent ≤ n) (fits : x.Fits n) (short : x.Short)
    (follows : Follows n x.value.edge next rest) :
    Arrives a fun d => ∃ p, Entry.Means n p x ∧ d.rest = next.text ++ rest ∧ d.depth = 0 ∧
      d.keyAllowed = x.value.edge.keyAllowed ∧
      d.left n = ((n : Int), ((a.closed n).opened n .blockMapping).outers,
        ((a.closed n).opened n .blockMapping).tokens ++ p.tokens) := by
  have split : a.rest = x.before.text ++ (x.key ++ (x.blanks ++ (':' ::
      (x.value.text ++ (next.text ++ rest))))) := by
    simpa [Entry.text] using split
  have key := Reaches.key split spacing fits.key fits.blanks short
    (fits.value.endsWord follows) block allowed column inside
  refine .bind (key.arrives rfl) ?_
  rintro b rfl
  have indent := Spot.indent_opened inside .blockMapping
  refine .bind (.value rfl block rfl indent ?_ fits.value follows) ?_
  · change n < n + (x.key ++ x.blanks).length + 1
    omega
  · rintro d ⟨node, means, rest, depth, allowed, left⟩
    refine .here ⟨⟨x.key, node⟩, ⟨rfl, means⟩, rest, depth, allowed, ?_⟩
    rw [left]
    simp [Pair.tokens]

theorem ValueText.edge_ne_start (v : ValueText) : v.edge ≠ .start := by
  have items : ∀ (is : List Item) (e : Edge), e ≠ .start → Item.lastEdge e is ≠ .start := by
    intro is
    induction is with
    | nil => exact fun e other => other
    | cons i is ih => exact fun e _ => ih _ (Slot.edge_ne_start _ _)
  cases v with
  | slot s => exact Slot.edge_ne_start _ _
  | items k is => exact items is _ (by simp)
  | brackets b => simp [edge]

/-- What stands after an edge in front of some entries. -/
theorem Entry.AllFit.follows {xs : List Entry} {e : Edge} (fits : Entry.AllFit n e xs)
    (ends : next.Ends (Entry.lastEdge e xs) rest) :
    ∃ next' rest', Entry.allText xs ++ (next.text ++ rest) = next'.text ++ rest' ∧
      Follows n e next' rest' := by
  cases xs with
  | nil => exact ⟨next, rest, rfl, .inr ends⟩
  | cons x xs =>
    refine ⟨x.before, x.key ++ (x.blanks ++ (':' :: (x.value.text ++
      (Entry.allText xs ++ (next.text ++ rest))))), ?_, ?_⟩
    · simp [Entry.allText, Entry.text]
    · have nonempty := fits.2.1.key.fits.1
      exact .inl ⟨n, Nat.le_refl n, fits.1, fits.2.1.key.startsToken _, by simp [nonempty]⟩

theorem Spot.closed_form {a : Spot} {indent : Int} {outers : List Int} {ts : List Token}
    (left : a.left n = (indent, outers, ts)) :
    (a.closed n).indent = indent ∧ (a.closed n).outers = outers ∧ (a.closed n).tokens = ts := by
  unfold closed
  rw [left]
  exact ⟨rfl, rfl, rfl⟩

/-- Over the entries after the first one. -/
theorem Arrives.entries {xs : List Entry} {e : Edge} {outers : List Int} {ts : List Token}
    (split : a.rest = Entry.allText xs ++ (next.text ++ rest)) (block : a.depth = 0)
    (allowed : a.keyAllowed = e.keyAllowed) (other : e ≠ .start)
    (left : a.left n = ((n : Int), outers, ts)) (fits : Entry.AllFit n e xs)
    (short : ∀ x ∈ xs, x.Short) (ends : next.Ends (Entry.lastEdge e xs) rest) :
    Arrives a fun d => ∃ ps, List.Forall₂ (Entry.Means n) ps xs ∧ d.rest = next.text ++ rest ∧
      d.depth = 0 ∧ d.keyAllowed = (Entry.lastEdge e xs).keyAllowed ∧
      d.left n = ((n : Int), outers, ts ++ ps.flatMap Pair.tokens) := by
  induction xs generalizing a e ts with
  | nil =>
    refine .here ⟨[], .nil, ?_, block, allowed, ?_⟩
    · simpa [Entry.allText] using split
    · simpa using left
  | cons x xs ih =>
    obtain ⟨starts, entry, later⟩ := fits
    obtain ⟨next', rest', text, follows⟩ := later.follows ends
    obtain ⟨spacing, broken⟩ := starts.fits other
    have split : a.rest = x.text ++ (next'.text ++ rest') := by
      rw [← text, split]
      simp [Entry.allText]
    have spacing : x.before.Fits a.tabs := by simpa [Spot.tabs, block, allowed] using spacing
    have column : n = x.before.column a.column := by
      rw [Spacing.column_of_broken broken]
      exact starts.1.symm
    obtain ⟨indent, outers', tokens⟩ := Spot.closed_form left
    have crossing := Arrives.entry split block spacing (by simp [broken]) column
      (Int.le_of_eq indent) entry (short x (by simp)) follows
    rw [Spot.opened_eq indent, outers', tokens] at crossing
    refine crossing.bind ?_
    rintro d ⟨p, means, rest, depth, allowed, left⟩
    refine .bind (ih (rest.trans text.symm) depth allowed x.value.edge_ne_start left later
      (fun x mem => short x (by simp [mem])) ends) ?_
    rintro d' ⟨ps, all, rest, depth, allowed, left⟩
    refine .here ⟨p :: ps, .cons means all, rest, depth, allowed, ?_⟩
    simpa using left

/-! ## Whole texts -/

theorem allowedPart_eq {cs : List Char} (allowed : ∀ c ∈ cs, isAllowed c = true)
    (done current : List Char) (bytes : Nat) :
    Tokens.allowedPart done current bytes cs = (done.reverse ++ (current.reverse ++ cs), true) := by
  induction cs generalizing done current bytes with
  | nil => simp [Tokens.allowedPart]
  | cons c cs ih =>
    have first : isAllowed c = true := allowed c (by simp)
    have later := ih fun d mem => allowed d (by simp [mem])
    rw [Tokens.allowedPart]
    by_cases room : bytes + c.utf8Size ≤ Tokens.portion
    · simp [room, first, later]
    · simp [room, first, later]

/-- Where a text starts. -/
def Spot.start (text : List Char) : Spot where
  rest := text
  column := 0
  tokens := []
  indent := -1
  outers := []
  keyAllowed := true
  depth := 0

theorem Scan.start_is (text : List Char) : (Scan.start text true).Is (.start text) where
  rest := rfl
  column := rfl
  whole := rfl
  tokens := rfl
  indent := rfl
  outers := rfl
  allowed := rfl
  depth := rfl
  free := by simp [Scan.start]

theorem Spacing.Ends.fits {e : Edge} {sp : Spacing} {comment : List Char}
    (ends : sp.Ends e comment) : sp.Fits (!e.keyAllowed) ∧ IsComment comment := by
  cases e with
  | start => exact ends
  | token tabs => exact ⟨by simpa [Edge.keyAllowed] using ends.1, ends.2.2.1⟩
  | block =>
    rcases ends with ⟨rfl, rfl⟩ | ⟨⟨ending, next, rfl, fits⟩, isComment⟩
    · exact ⟨List.forall_mem_nil _, .inl rfl⟩
    · exact ⟨⟨List.forall_mem_nil _, .inl rfl, fits⟩, isComment⟩

/-- The mapping is the outermost block. -/
theorem Spot.opened_start (text : List Char) (n : Nat) :
    (((Spot.start text).closed n).opened n .blockMapping).outers = [-1] ∧
      (((Spot.start text).closed n).opened n .blockMapping).tokens = [.blockMapping] := by
  have outside : (-1 : Int) < n := by omega
  simp [opened, closed, left, start, closing, outside]

/-- The end of the outermost block. -/
theorem Spot.closed_outermost {a : Spot} (block : a.depth = 0) (indent : a.indent = n)
    (outers : a.outers = [-1]) : (a.closed (-1)).tokens = a.tokens ++ [.blockEnd] := by
  have outside : (-1 : Int) < n := by omega
  simp [closed, left, block, indent, outers, closing, outside]

/-- From the start of the text to the spacing at its end. -/
theorem MappingText.Fits.arrives {m : MappingText} (fits : m.Fits)
    (short : ∀ x ∈ m.entries, x.Short) :
    Arrives (.start m.text) fun d => ∃ ps, m.Means ps ∧ d.rest = m.ending.text ++ m.comment ∧
      d.tabs = !(Entry.lastEdge .start m.entries).keyAllowed ∧
      (d.closed (-1)).tokens ++ [.textEnd] = Pair.allTokens ps := by
  obtain ⟨entries, ending, allowed⟩ := fits
  unfold Means text
  cases here : m.entries with
  | nil =>
    exact .here ⟨[], .nil, by simp [Spot.start, Entry.allText], rfl, rfl⟩
  | cons x xs =>
    rw [here] at entries ending short
    obtain ⟨⟨column, spacing⟩, entry, later⟩ := entries
    obtain ⟨next, rest, text, follows⟩ := later.follows ending
    have split : (Spot.start (Entry.allText (x :: xs) ++ (m.ending.text ++ m.comment))).rest =
        x.text ++ (next.text ++ rest) := by
      rw [← text]
      simp [Spot.start, Entry.allText]
    refine .bind (.entry split rfl spacing rfl column.symm ?_ entry (short x (by simp)) follows) ?_
    · change (-1 : Int) ≤ m.column
      omega
    rintro d ⟨p, means, rest, depth, allowed, left⟩
    refine .bind (.entries (rest.trans text.symm) depth allowed x.value.edge_ne_start left later
      (fun x mem => short x (by simp [mem])) ending) ?_
    rintro d ⟨ps, all, rest, depth, allowed, left⟩
    refine .here ⟨p :: ps, .cons means all, rest, ?_, ?_⟩
    · simp [Spot.tabs, depth, allowed, Entry.lastEdge]
    · obtain ⟨outers', tokens'⟩ := Spot.opened_start
        (Entry.allText (x :: xs) ++ (m.ending.text ++ m.comment)) m.column
      rw [outers', tokens'] at left
      obtain ⟨indent, outers, tokens⟩ := Spot.closed_form left
      have outside : (-1 : Int) ≤ m.column := by omega
      rw [← Spot.closed_closed outside,
        Spot.closed_outermost (a := d.closed m.column) depth indent outers, tokens]
      simp [Pair.allTokens]

/-- The tokens of a mapping do not depend on its layout. -/
theorem MappingText.Fits.tokens {m : MappingText} (fits : m.Fits)
    (short : ∀ x ∈ m.entries, x.Short) :
    ∃ ps, m.Means ps ∧ (Tokens.ofText m.text).tokens = Pair.allTokens ps := by
  obtain ⟨d, t, ⟨ps, means, rest, tabs, tokens⟩, stands, same⟩ :=
    fits.arrives short (Scan.start m.text true) (Scan.start_is m.text).stands
  obtain ⟨spacing, isComment⟩ := fits.ending.fits
  refine ⟨ps, means, ?_⟩
  have whole : Tokens.allowedPart [] [] 0 m.text = (m.text, true) :=
    allowedPart_eq fits.allowed _ _ _
  rw [Tokens.ofText, whole]
  simp only
  rw [same, stands.ofScan_end rest (tabs ▸ spacing) isComment]
  exact tokens

end Spindle.Yaml
