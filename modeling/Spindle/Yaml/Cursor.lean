import Spindle.Yaml.Char

/-!
# Places in a text

A cursor is the text that is left, with the number of bytes before it, of lines before it and of
characters before it on its line.
-/

namespace Spindle.Yaml

structure Cursor where
  rest : List Char
  index : Nat
  line : Nat
  column : Nat
  deriving DecidableEq, Repr

namespace Cursor

def byteCount : List Char → Nat
  | [] => 0
  | b :: s => b.utf8Size + byteCount s

def start (text : List Char) : Cursor := ⟨text, 0, 0, 0⟩

def peek? (c : Cursor) (n : Nat) : Option Char := c.rest[n]?

def advance (c : Cursor) (n : Nat) : Cursor :=
  ⟨c.rest.drop n, c.index + byteCount (c.rest.take n), c.line, c.column + n⟩

/-- The characters from here on that satisfy `p`, none of them a line break, and the place after
them. -/
def span (c : Cursor) (p : Char → Bool) : List Char × Cursor :=
  let taken := c.rest.takeWhile p
  (taken, c.advance taken.length)

/-- Passes over one line break, if there is one here, and gives what it stands for: a line feed,
or the separator itself. -/
def readBreak (c : Cursor) : List Char × Cursor :=
  match c.rest with
  | '\r' :: '\n' :: rest => (['\n'], ⟨rest, c.index + 2, c.line + 1, 0⟩)
  | b :: rest =>
    if isBreak b then
      ([if isSeparator b then b else '\n'], ⟨rest, c.index + b.utf8Size, c.line + 1, 0⟩)
    else ([], c)
  | [] => ([], c)

theorem length_advance_one_lt (c : Cursor) {b : Char} {rest : List Char} (h : c.rest = b :: rest) :
    (c.advance 1).rest.length < c.rest.length := by
  simp [advance, h]

theorem length_readBreak_lt (c : Cursor) {b : Char} {rest : List Char} (h : c.rest = b :: rest)
    (hb : isBreak b) : c.readBreak.2.rest.length < c.rest.length := by
  unfold readBreak
  rw [h]
  split
  · rename_i hcr
    cases hcr
    exact Nat.lt_of_lt_of_le (Nat.lt_succ_self _) (Nat.le_succ _)
  · rename_i hother
    cases hother
    simp [hb]
  · contradiction

/-- Passes over the rest of the line, but not its break. -/
def skipLine (c : Cursor) : Cursor := (c.span fun b => !isBreak b).2

/-- Whether a document marker stands here, at the start of a line. -/
def atMarker (c : Cursor) (mark : Char) : Bool :=
  c.column = 0 && c.rest.take 3 = [mark, mark, mark] && endsWord (c.peek? 3)

def atDocumentMarker (c : Cursor) : Bool := c.atMarker '-' || c.atMarker '.'

end Cursor

/-- The blanks and line breaks between two runs of characters of a scalar. -/
structure Gap where
  blanks : List Char
  first : Option (List Char)
  more : List Char
  deriving DecidableEq, Repr

namespace Gap

def empty : Gap := ⟨[], none, []⟩

/-- After a break that is not part of the text. -/
def escaped : Gap := ⟨[], some [], []⟩

/-- What the gap stands for. A single line feed is a space, and the first of several is nothing. -/
def folded (g : Gap) : List Char :=
  match g.first with
  | none => g.blanks
  | some ['\n'] => if g.more = [] then [' '] else g.more
  | some b => b ++ g.more

/-- The gap with one more blank; after a break, blanks are dropped. -/
def addBlank (g : Gap) (b : Char) : Gap :=
  if g.first.isSome then g else { g with blanks := g.blanks ++ [b] }

/-- The gap with one more break; the first one drops the blanks before it. -/
def addBreak (g : Gap) (b : List Char) : Gap :=
  match g.first with
  | none => ⟨[], some b, []⟩
  | some first => ⟨g.blanks, some first, g.more ++ b⟩

/-- Reads the rest of a gap. A tab to the left of `limit` after a break is an error. -/
def read (limit : Int) (g : Gap) (c : Cursor) : Option (Gap × Cursor) :=
  match _hc : c.rest with
  | [] => some (g, c)
  | b :: _ =>
    if isBlank b then
      if g.first.isSome ∧ b = '\t' ∧ (c.column : Int) < limit then none
      else read limit (g.addBlank b) (c.advance 1)
    else if _hb : isBreak b then read limit (g.addBreak c.readBreak.1) c.readBreak.2
    else some (g, c)
termination_by c.rest.length
decreasing_by
  · exact c.length_advance_one_lt _hc
  · exact c.length_readBreak_lt _hc _hb

end Gap

end Spindle.Yaml
