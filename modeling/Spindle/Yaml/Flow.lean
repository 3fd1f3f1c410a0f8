import Spindle.Yaml.Cursor

/-!
# Quoted and plain scalars

Scalars that may run over several lines, whose gaps are folded. `none` says that the text is
malformed.
-/

namespace Spindle.Yaml

/-! ## Escapes -/

def hexValue? (c : Char) : Option Nat :=
  if c.isDigit then some (c.toNat - '0'.toNat)
  else if 'a' ≤ c ∧ c ≤ 'f' then some (c.toNat - 'a'.toNat + 10)
  else if 'A' ≤ c ∧ c ≤ 'F' then some (c.toNat - 'A'.toNat + 10)
  else none

def hexNumber? (digits : List Char) : Option Nat :=
  digits.foldlM (fun n c => (hexValue? c).map (n * 16 + ·)) 0

def ofLetter? (c : Char) : Option Char :=
  match c with
  | '0' => some '\x00'
  | 'a' => some '\x07'
  | 'b' => some '\x08'
  | 't' | '\t' => some '\t'
  | 'n' => some '\n'
  | 'v' => some '\x0b'
  | 'f' => some '\x0c'
  | 'r' => some '\r'
  | 'e' => some '\x1b'
  | ' ' => some ' '
  | '"' => some '"'
  | '/' => some '/'
  | '\\' => some '\\'
  | 'N' => some '\u0085'
  | '_' => some '\u00a0'
  | 'L' => some '\u2028'
  | 'P' => some '\u2029'
  | _ => none

def escapeDigits? (c : Char) : Option Nat :=
  match c with
  | 'x' => some 2
  | 'u' => some 4
  | 'U' => some 8
  | _ => none

/-- The character of an escape, after the backslash, and how many characters it takes. -/
def readEscape (s : List Char) : Option (Char × Nat) :=
  match s with
  | [] => none
  | c :: s =>
    match escapeDigits? c with
    | none => (ofLetter? c).map (·, 1)
    | some digits =>
      if s.length < digits then none
      else
        match hexNumber? (s.take digits) with
        | none => none
        | some n => if n.isValidChar then some (Char.ofNat n, digits + 1) else none

/-! ## Quoted scalars -/

inductive RunEnd where
  | quote
  | gap
  | escapedBreak
  deriving DecidableEq, Repr

/-- A run of characters without gaps, what it stands for, and what ends it. -/
def quotedRun (single : Bool) (c : Cursor) : Option (List Char × RunEnd × Cursor) :=
  go c.rest.length [] c
where
  go : Nat → List Char → Cursor → Option (List Char × RunEnd × Cursor)
    | 0, _, _ => none
    | fuel + 1, read, c =>
      match c.rest with
      | [] => none
      | b :: rest =>
        if isBlank b || isBreak b then some (read.reverse, .gap, c)
        else if single then
          if b = '\'' then
            if rest.head? = some '\'' then go fuel ('\'' :: read) (c.advance 2)
            else some (read.reverse, .quote, c.advance 1)
          else go fuel (b :: read) (c.advance 1)
        else if b = '"' then some (read.reverse, .quote, c.advance 1)
        else if b = '\\' then
          if rest.head?.any isBreak then
            some (read.reverse, .escapedBreak, (c.advance 1).readBreak.2)
          else
            match readEscape rest with
            | none => none
            | some (e, taken) => go fuel (e :: read) (c.advance (taken + 1))
        else go fuel (b :: read) (c.advance 1)

def readQuoted (single : Bool) (text : List Char) (c : Cursor) : Option (List Char × Cursor) :=
  if c.atDocumentMarker then none
  else
    match quotedRun single c with
    | none => none
    | some (run, .quote, c) => some (text ++ run, c)
    | some (run, ending, next) =>
      match Gap.read (-1) (if ending = .escapedBreak then .escaped else .empty) next with
      | none => none
      | some (gap, next) =>
        if next.rest.length < c.rest.length then
          readQuoted single (text ++ run ++ gap.folded) next
        else none
termination_by c.rest.length

/-! ## Plain scalars -/

/-- A run of characters without gaps. Inside brackets a colon before one of them is an error. -/
def plainRun (flow : Bool) : List Char → Option (List Char)
  | [] => some []
  | b :: rest =>
    if isBlank b || isBreak b then some []
    else if flow && b = ':' && rest.head?.any (fun d => isFlowIndicator d || d = '?') then none
    else if b = ':' && endsWord rest.head? then some []
    else if flow && isFlowIndicator b then some []
    else (plainRun flow rest).map (b :: ·)

/-- A plain scalar as it has been read: its text, whether a line break came after it, and the
place after it. -/
structure Plain where
  text : List Char
  broken : Bool
  place : Cursor

/-- The rest of a plain scalar, after `text` and a gap. The lines after the first are indented by
at least `indent`. -/
def readPlain (flow : Bool) (indent : Int) (text : List Char) (gap : Gap) (c : Cursor) :
    Option Plain :=
  if c.atDocumentMarker || c.peek? 0 = some '#' then some ⟨text, gap.first.isSome, c⟩
  else
    match plainRun flow c.rest with
    | none => none
    | some [] => some ⟨text, gap.first.isSome, c⟩
    | some run@(_ :: _) =>
      match Gap.read indent .empty (c.advance run.length) with
      | none => none
      | some (next, place) =>
        if next = .empty || !flow && (place.column : Int) < indent then
          some ⟨text ++ gap.folded ++ run, next.first.isSome, place⟩
        else if place.rest.length < c.rest.length then
          readPlain flow indent (text ++ gap.folded ++ run) next place
        else none
termination_by c.rest.length

end Spindle.Yaml
