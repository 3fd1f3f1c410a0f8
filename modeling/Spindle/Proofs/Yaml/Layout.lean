import Mathlib.Data.List.Forall2
import Spindle.Proofs.Yaml.BlockScalars

/-!
# Block mappings as they are written

The texts of block mappings whose values are scalars or sequences of scalars: every way to quote,
to break lines, to comment and to indent is kept as data, and what a text means is told apart from
how it is laid out.
-/

namespace Spindle.Yaml

/-! ## Spacing between lines -/

/-- What the text before some spacing ends with. -/
inductive Edge where
  /-- Nothing; this is the start of the text. -/
  | start
  /-- A token, which tabs may follow or not. -/
  | token (tabs : Bool)
  /-- A block scalar, which takes in the rest of its line. -/
  | block
  deriving DecidableEq, Repr

/-- Whether a key may start right after an edge. -/
def Edge.keyAllowed : Edge → Bool
  | start => true
  | token tabs => !tabs
  | block => true

namespace Spacing

/-- The end of a line without more text, and other lines. -/
def Ended (sp : Spacing) : Prop :=
  ∃ ending next, sp = .line ⟨[], [], ending⟩ next ∧ next.Fits false

/-- Whether a token at a column can follow, the first one of its line. -/
def Starts (column : Nat) (e : Edge) (sp : Spacing) : Prop :=
  sp.column 0 = column ∧
    match e with
    | .start => sp.Fits false
    | .token tabs => sp.Fits tabs ∧ sp.Apart ∧ sp.broken = true
    | .block => sp.Ended

/-- Whether the text can end after it, with a comment on the last line or without. -/
def Ends (e : Edge) (comment : List Char) (sp : Spacing) : Prop :=
  match e with
  | .start => sp.Fits false ∧ IsComment comment
  | .token tabs => sp.Fits tabs ∧ sp.Apart ∧ IsComment comment ∧ (sp.text = [] → comment = [])
  | .block => sp = .blanks [] ∧ comment = [] ∨ sp.Ended ∧ IsComment comment

/-- Whether it can stand before a value inside a block at column `m`. -/
structure Leads (m : Nat) (tabs : Bool) (sp : Spacing) : Prop where
  fits : sp.Fits tabs
  apart : sp.Apart
  nonempty : sp.text ≠ []
  further : sp.broken = true → m < sp.column 0

/-- Whether it can stand inside of brackets. -/
structure FitsInside (sp : Spacing) : Prop where
  fits : sp.Fits true
  apart : sp.Apart
  further : sp.broken = true → sp.column 0 ≠ 0

end Spacing

/-! ## Scalars -/

/-- What a scalar stands for, and how it is written. -/
structure Content where
  text : List Char
  style : Style
  deriving DecidableEq, Repr

namespace Content

def token (c : Content) : Token := .scalar c.text c.style

/-- The tokens where something may be written or not. -/
def tokens (c : Option Content) : List Token := (c.map token).toList

end Content

inductive ScalarText where
  | plain (ws : Words Char)
  | quoted (single : Bool) (ws : Words Piece)
  | block (b : BlockScalar)

namespace ScalarText

def text : ScalarText → List Char
  | plain ws => ws.text
  | quoted single ws => ws.quoted single
  | block b => b.text

def edge : ScalarText → Edge
  | plain _ => .token true
  | quoted _ _ => .token true
  | block _ => .block

/-- Whether the scalar can stand in a block at column `m`, or inside of brackets. -/
def Fits (flow : Bool) (m : Nat) : ScalarText → Prop
  | plain ws => ws.Fits flow (if flow then 1 else m + 1) ∧ StartsPlain flow ws.first
  | quoted single ws => ws.FitsQuoted single
  | block b => flow = false ∧ b.Fits m

/-- What a block scalar stands for is left open. -/
def Means (c : Content) : ScalarText → Prop
  | plain ws => c = ⟨ws.content, .plain⟩
  | quoted single ws => c = ⟨ws.values.content, Words.quotedStyle single⟩
  | block b => c.style = b.style

end ScalarText

/-- A scalar with the spacing before it. -/
structure Placed where
  before : Spacing
  scalar : ScalarText

/-- The place of a scalar, where nothing may be written as well. -/
abbrev Slot : Type := Option Placed

namespace Slot

def text : Slot → List Char
  | none => []
  | some p => p.before.text ++ p.scalar.text

def edge (e : Edge) : Slot → Edge
  | none => e
  | some p => p.scalar.edge

def Fits (tabs : Bool) (m : Nat) : Slot → Prop
  | none => True
  | some p => p.before.Leads m tabs ∧ p.scalar.Fits false m

inductive Means : Option Content → Slot → Prop
  | nothing : Means none none
  | scalar {c : Content} {p : Placed} : p.scalar.Means c → Means (some c) (some p)

end Slot

/-! ## Sequences -/

/-- An item of a block sequence, with the spacing before its dash. -/
structure Item where
  before : Spacing
  slot : Slot

namespace Item

def text (i : Item) : List Char := i.before.text ++ '-' :: i.slot.text

def allText (is : List Item) : List Char := is.flatMap text

/-- The edge after some items. -/
def lastEdge (e : Edge) : List Item → Edge
  | [] => e
  | i :: is => lastEdge (i.slot.edge (.token false)) is

/-- Whether the items can follow each other at column `k`. -/
def AllFit (k : Nat) : Edge → List Item → Prop
  | _, [] => True
  | e, i :: is =>
    i.before.Starts k e ∧ i.slot.Fits false k ∧ AllFit k (i.slot.edge (.token false)) is

end Item

/-- A scalar inside of brackets, with its comma. -/
structure Member where
  before : Spacing
  scalar : ScalarText
  after : Spacing

def Member.text (i : Member) : List Char :=
  i.before.text ++ (i.scalar.text ++ (i.after.text ++ [',']))

def Member.Fits (i : Member) : Prop :=
  i.before.FitsInside ∧ i.scalar.Fits true 0 ∧ i.after.FitsInside

/-- A sequence inside of brackets; a comma may follow its last scalar. -/
structure Brackets where
  before : Spacing
  members : List Member
  last : Slot
  close : Spacing

namespace Brackets

def inner (b : Brackets) : List Char :=
  b.members.flatMap Member.text ++ (b.last.text ++ (b.close.text ++ [']']))

def text (b : Brackets) : List Char := b.before.text ++ '[' :: b.inner

structure Fits (m : Nat) (b : Brackets) : Prop where
  before : b.before.Leads m true
  members : ∀ i ∈ b.members, i.Fits
  last : ∀ p ∈ b.last, p.before.FitsInside ∧ p.scalar.Fits true 0
  close : b.close.FitsInside

/-- Whether what is between the brackets can stand there. -/
structure FitsInner (b : Brackets) : Prop where
  members : ∀ i ∈ b.members, i.Fits
  last : ∀ p ∈ b.last, p.before.FitsInside ∧ p.scalar.Fits true 0
  close : b.close.FitsInside

theorem Fits.inner {m : Nat} {b : Brackets} (fits : b.Fits m) : b.FitsInner :=
  ⟨fits.members, fits.last, fits.close⟩

end Brackets

/-! ## Values -/

/-- The value of a key, whatever its layout. -/
inductive Node where
  | scalar (c : Option Content)
  /-- A block sequence has an item. -/
  | sequence (indentless : Bool) (first : Option Content) (more : List (Option Content))
  | brackets (members : List Content) (last : Option Content)

def Node.tokens : Node → List Token
  | scalar c => Content.tokens c
  | sequence indentless first more =>
    (if indentless then [] else [.blockSequence]) ++
      ((first :: more).flatMap (fun c => .blockEntry :: Content.tokens c) ++
        (if indentless then [] else [.blockEnd]))
  | brackets members last =>
    .flowSequence ::
      (members.flatMap (fun c => [c.token, .flowEntry]) ++
        (Content.tokens last ++ [.flowSequenceEnd]))

inductive ValueText where
  | slot (s : Slot)
  /-- A block sequence at a column. -/
  | items (column : Nat) (is : List Item)
  | brackets (b : Brackets)

namespace ValueText

def text : ValueText → List Char
  | slot s => s.text
  | items _ is => Item.allText is
  | brackets b => b.text

def edge : ValueText → Edge
  | slot s => s.edge (.token true)
  | items _ is => Item.lastEdge (.token true) is
  | brackets _ => .token true

/-- Whether the value can stand after a key at column `n`. A block sequence may stand at the column
of the key. -/
def Fits (n : Nat) : ValueText → Prop
  | slot s => s.Fits true n
  | items k is => n ≤ k ∧ is ≠ [] ∧ Item.AllFit k (.token true) is
  | brackets b => b.Fits n

inductive Means (n : Nat) : Node → ValueText → Prop
  | slot {c : Option Content} {s : Slot} : s.Means c → Means n (.scalar c) (.slot s)
  | items {c : Option Content} {cs : List (Option Content)} {k : Nat} {is : List Item} :
      List.Forall₂ (fun c (i : Item) => i.slot.Means c) (c :: cs) is →
        Means n (.sequence (k = n) c cs) (.items k is)
  | brackets {cs : List Content} {last : Option Content} {b : Brackets} :
      List.Forall₂ (fun c (i : Member) => i.scalar.Means c) cs b.members →
        b.last.Means last → Means n (.brackets cs last) (.brackets b)

end ValueText

/-! ## Mappings -/

/-- A key and its value, whatever their layout. -/
structure Pair where
  key : List Char
  node : Node

def Pair.tokens (p : Pair) : List Token :=
  .key :: .scalar p.key .plain :: .value :: p.node.tokens

/-- The tokens of a mapping, which is nothing when it has no entries. -/
def Pair.allTokens (ps : List Pair) : List Token :=
  if ps = [] then [.textEnd] else .blockMapping :: (ps.flatMap tokens ++ [.blockEnd, .textEnd])

structure Entry where
  before : Spacing
  key : List Char
  /-- Between the key and its colon. -/
  blanks : List Char
  value : ValueText

namespace Entry

def text (x : Entry) : List Char :=
  x.before.text ++ (x.key ++ (x.blanks ++ ':' :: x.value.text))

def allText (xs : List Entry) : List Char := xs.flatMap text

/-- The key and the value fit, in a mapping at column `n`. -/
structure Fits (n : Nat) (x : Entry) : Prop where
  key : IsIdentifier x.key
  blanks : AreBlanks true x.blanks
  value : x.value.Fits n

/-- The colon comes soon enough for a scan to know the key by it. -/
def Short (x : Entry) : Prop := (x.key ++ x.blanks).length ≤ 1024

/-- What an entry of a mapping at column `n` means. -/
def Means (n : Nat) (p : Pair) (x : Entry) : Prop := p.key = x.key ∧ x.value.Means n p.node

def lastEdge (e : Edge) : List Entry → Edge
  | [] => e
  | x :: xs => lastEdge x.value.edge xs

def AllFit (n : Nat) : Edge → List Entry → Prop
  | _, [] => True
  | e, x :: xs => x.before.Starts n e ∧ x.Fits n ∧ AllFit n x.value.edge xs

end Entry

/-- A text that is a block mapping, or nothing but spacing. -/
structure MappingText where
  column : Nat
  entries : List Entry
  ending : Spacing
  comment : List Char

namespace MappingText

def text (m : MappingText) : List Char :=
  Entry.allText m.entries ++ (m.ending.text ++ m.comment)

structure Fits (m : MappingText) : Prop where
  entries : Entry.AllFit m.column .start m.entries
  ending : m.ending.Ends (Entry.lastEdge .start m.entries) m.comment
  allowed : ∀ c ∈ m.text, isAllowed c = true

def Means (ps : List Pair) (m : MappingText) : Prop :=
  List.Forall₂ (Entry.Means m.column) ps m.entries

end MappingText

end Spindle.Yaml
