import Spindle.Json.Error

/-!
# Readers

A reader takes a value off the front of a text and gives back the rest, which is shorter.
`Loop.run` repeats a step for as long as it asks for another turn; the text bounds the turns.
-/

namespace Spindle.Json

structure Reader (α : Type) where
  run : List Char → Except Error (α × List Char)
  shorter : ∀ {s v rest}, run s = .ok (v, rest) → rest.length < s.length

/-- Space, tab, line feed and carriage return. -/
def isBlank (c : Char) : Bool := c = ' ' || c = '\t' || c = '\n' || c = '\r'

def skipBlank (s : List Char) : List Char := s.dropWhile isBlank

theorem length_skipBlank_le (s : List Char) : (skipBlank s).length ≤ s.length :=
  (List.dropWhile_suffix _).length_le

theorem length_lt_of_skipBlank {s rest : List Char} {c : Char} (h : skipBlank s = c :: rest) :
    rest.length < s.length := by
  have := length_skipBlank_le s
  rwa [h] at this

namespace Reader

/-- Reads a whole text; only blanks may follow the value. -/
def whole (r : Reader α) (text : List Char) : Except Error α :=
  match r.run text with
  | .error e => .error e
  | .ok (v, rest) => if skipBlank rest = [] then .ok v else .error .trailingCharacters

def map (f : α → β) (r : Reader α) : Reader β where
  run s :=
    match r.run s with
    | .error e => .error e
    | .ok (v, rest) => .ok (f v, rest)
  shorter h := by
    split at h
    · cases h
    · cases h
      exact r.shorter ‹_›

/-- Blanks before the value are dropped; an empty text has no value. -/
def afterBlanks (run : Char → List Char → Except Error (α × List Char))
    (shorter : ∀ {c s v rest}, run c s = .ok (v, rest) → rest.length ≤ s.length) :
    Reader α where
  run s :=
    match skipBlank s with
    | [] => .error .endOfValue
    | c :: s => run c s
  shorter h := by
    split at h
    · cases h
    · exact Nat.lt_of_le_of_lt (shorter h) (length_lt_of_skipBlank ‹_›)

theorem afterBlanks_eq_ok {run : Char → List Char → Except Error (α × List Char)}
    {shorter : ∀ {c s v rest}, run c s = .ok (v, rest) → rest.length ≤ s.length} {s rest : List Char}
    {v : α} :
    (afterBlanks run shorter).run s = .ok (v, rest) ↔
      ∃ c t, skipBlank s = c :: t ∧ run c t = .ok (v, rest) := by
  simp only [afterBlanks]
  cases skipBlank s with
  | nil => simp
  | cons c t => grind

end Reader

inductive Turn (σ α : Type) where
  | again (state : σ) (rest : List Char)
  | done (value : α) (rest : List Char)

namespace Turn

def rest : Turn σ α → List Char
  | again _ rest => rest
  | done _ rest => rest

end Turn

/-- A step that reads part of the text at each turn. -/
structure Loop (σ α : Type) where
  step : σ → List Char → Except Error (Turn σ α)
  shorter : ∀ {state s turn}, step state s = .ok turn → turn.rest.length < s.length

namespace Loop

def run (l : Loop σ α) (state : σ) (s : List Char) : Except Error (α × List Char) :=
  match _h : l.step state s with
  | .error e => .error e
  | .ok (.done v rest) => .ok (v, rest)
  | .ok (.again state rest) => l.run state rest
termination_by s.length
decreasing_by exact l.shorter _h

theorem run_eq (l : Loop σ α) (state : σ) (s : List Char) :
    l.run state s =
      match l.step state s with
      | .error e => .error e
      | .ok (.done v rest) => .ok (v, rest)
      | .ok (.again state rest) => l.run state rest := by
  rw [run]
  split <;> simp_all

/-- A run ends at its first turn, or goes on with another. -/
theorem run_eq_ok {l : Loop σ α} {state : σ} {s rest : List Char} {v : α} :
    l.run state s = .ok (v, rest) ↔
      l.step state s = .ok (.done v rest) ∨
      ∃ next t, l.step state s = .ok (.again next t) ∧ l.run next t = .ok (v, rest) := by
  rw [run_eq]
  rcases l.step state s with e | ⟨next, t⟩ | ⟨w, t⟩
  · simp
  · grind
  · simp

theorem run_shorter (l : Loop σ α) {state : σ} {s : List Char} {v : α} {rest : List Char}
    (h : l.run state s = .ok (v, rest)) : rest.length < s.length := by
  fun_induction run l state s with
  | case1 => cases h
  | case2 state s v rest hstep =>
    cases h
    exact l.shorter hstep
  | case3 state s state' rest' hstep ih => exact Nat.lt_trans (ih h) (l.shorter hstep)

end Loop

end Spindle.Json
