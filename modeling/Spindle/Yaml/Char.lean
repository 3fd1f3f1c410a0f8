/-!
# Character classes

The classes of characters that the tokens of a YAML text are made of. `none` stands for the end of
the text.
-/

namespace Spindle.Yaml

def isBlank (c : Char) : Bool := c = ' ' || c = '\t'

/-- Line and paragraph separators, which are kept as they are when lines are read. -/
def isSeparator (c : Char) : Bool := c = '\u2028' || c = '\u2029'

def isBreak (c : Char) : Bool := c = '\r' || c = '\n' || c = '\u0085' || isSeparator c

/-- Characters of names: ASCII letters and digits, `_` and `-`. -/
def isWord (c : Char) : Bool := c.isAlphanum || c = '_' || c = '-'

def isFlowIndicator (c : Char) : Bool :=
  c = ',' || c = '[' || c = ']' || c = '\x7b' || c = '\x7d'

/-- Characters that no plain scalar starts with, except for some before other characters. -/
def isIndicator (c : Char) : Bool :=
  isFlowIndicator c || "-?:#&*!|>'\"%@\x60".toList.contains c

def isAllowed (c : Char) : Bool :=
  let n := c.toNat
  n = 0x09 || n = 0x0A || n = 0x0D || (0x20 ≤ n && n ≤ 0x7E) || n = 0x85 ||
    (0xA0 ≤ n && n ≤ 0xD7FF) || (0xE000 ≤ n && n ≤ 0xFFFD) || 0x10000 ≤ n

def endsWord : Option Char → Bool
  | none => true
  | some c => isBlank c || isBreak c

def endsLine : Option Char → Bool
  | none => true
  | some c => isBreak c

end Spindle.Yaml
