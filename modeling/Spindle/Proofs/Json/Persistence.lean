import Spindle.Json.Record

/-!
# Readings persist

What a reader says about a text still holds when the text goes on: a value that was read is read
again, with the addition in the rest, and a fault stays unless the text ended too early. Only a
number at the very end of a text can go on, so what is added there must not continue it.
-/

namespace Spindle.Json

def continuesNumber (c : Char) : Bool :=
  c.isDigit || c = '.' || c = 'e' || c = 'E' || c = '+' || c = '-'

/-- A text that does not go on with a number. -/
def Delimits (more : List Char) : Prop := ∀ c ∈ more.head?, continuesNumber c = false

/-- Faults that more text may mend. -/
def Error.isOpen : Error → Bool
  | endOfValue | endOfString | endOfList | endOfObject | trailingCharacters => true
  | _ => false

class Leaves (β : Type) where
  rest : β → List Char
  extend : β → List Char → β

instance : Leaves (List Char) := ⟨id, (· ++ ·)⟩

instance : Leaves (α × List Char) := ⟨Prod.snd, fun read more => (read.1, read.2 ++ more)⟩

instance : Leaves (Turn σ α) where
  rest := Turn.rest
  extend
    | .again state rest, more => .again state (rest ++ more)
    | .done value rest, more => .done value (rest ++ more)

/-- `y` is how the reading `x` of `s` turns out when `more` follows. -/
def Persists [Leaves β] (s more : List Char) (x y : Except Error β) : Prop :=
  match x with
  | .ok read =>
    (Leaves.rest read).length ≤ s.length ∧
      ((Leaves.rest read = [] → Delimits more) → y = .ok (Leaves.extend read more))
  | .error e => e.isOpen = false → Delimits more → y = .error e

namespace Persists

section
variable {s more rest : List Char}

theorem value {v : α} (le : rest.length ≤ s.length) :
    Persists s more (.ok (v, rest)) (.ok (v, rest ++ more)) := ⟨le, fun _ => rfl⟩

variable [Leaves β]

theorem ok {read : β} (le : (Leaves.rest read).length ≤ s.length) :
    Persists s more (.ok read) (.ok (Leaves.extend read more)) :=
  ⟨le, fun _ => rfl⟩

theorem error (e : Error) : Persists (β := β) s more (.error e) (.error e) := fun _ _ => rfl

theorem opened {e : Error} {y : Except Error β} (isOpen : e.isOpen = true) :
    Persists s more (.error e) y := by
  intro closed
  rw [isOpen] at closed
  cases closed

theorem mono {x y : Except Error β} (h : Persists rest more x y) (le : rest.length ≤ s.length) :
    Persists s more x y := by
  cases x with
  | ok read => exact ⟨Nat.le_trans h.1 le, h.2⟩
  | error e => exact h

theorem narrow {x y : Except Error β} (h : Persists s more x y)
    (le : ∀ read, x = .ok read → (Leaves.rest read).length ≤ rest.length) :
    Persists rest more x y := by
  cases x with
  | ok read => exact ⟨le read rfl, h.2⟩
  | error e => exact h

/-- What goes on from a reading that persists; `next` passes a fault on. -/
theorem andThen [Leaves γ] {x y : Except Error γ} {next : Except Error γ → Except Error β}
    (first : Persists s more x y) (strict : ∀ e, next (.error e) = .error e)
    (second : ∀ read, x = .ok read →
      Persists (Leaves.rest read) more (next (.ok read)) (next (.ok (Leaves.extend read more)))) :
    Persists s more (next x) (next y) := by
  cases x with
  | error e =>
    rw [strict]
    intro closed delimits
    rw [first closed delimits, strict]
  | ok read =>
    obtain ⟨le, first⟩ := first
    have second := second read rfl
    cases reads : next (.ok read) with
    | error e =>
      rw [reads] at second
      intro closed delimits
      rw [first fun _ => delimits]
      exact second closed delimits
    | ok last =>
      rw [reads] at second
      refine ⟨Nat.le_trans second.1 le, fun delimits => ?_⟩
      -- the second reading leaves nothing if the first one does
      have atEnd : Leaves.rest read = [] → Leaves.rest last = [] := by
        intro empty
        have := second.1
        rw [empty] at this
        exact List.length_eq_zero_iff.mp (Nat.le_zero.mp this)
      rw [first fun empty => delimits (atEnd empty)]
      exact second.2 delimits

end

end Persists

/-! ### Blanks -/

theorem skipBlank_append {s t : List Char} {c : Char} (h : skipBlank s = c :: t)
    (more : List Char) : skipBlank (s ++ more) = c :: (t ++ more) := by
  unfold skipBlank at h ⊢
  rw [List.dropWhile_append, h]
  rfl

namespace Persists

variable {s more : List Char}

/-- The case of a text that is not blank; one that is blank has not ended where it should. -/
theorem afterBlank [Leaves β] {x y : Except Error β} {e : Error} :
    (skipBlank s = [] → x = .error e) → e.isOpen = true →
    (∀ c t, skipBlank s = c :: t → skipBlank (s ++ more) = c :: (t ++ more) →
      Persists t more x y) →
    Persists s more x y := by
  intro blank isOpen next
  cases found : skipBlank s with
  | nil =>
    rw [blank found]
    exact opened isOpen
  | cons c t =>
    exact (next c t found (skipBlank_append found more)).mono
      (Nat.le_of_lt (length_lt_of_skipBlank found))

end Persists

/-! ### Readers and loops -/

def Reader.Persistent (r : Reader α) : Prop :=
  ∀ s more, Persists s more (r.run s) (r.run (s ++ more))

namespace Reader.Persistent

theorem map {r : Reader α} (h : r.Persistent) (f : α → β) : (r.map f).Persistent := by
  intro s more
  have first := h s more
  dsimp only [Reader.map]
  generalize r.run s = x, r.run (s ++ more) = y at first ⊢
  apply first.andThen
  · exact fun _ => rfl
  exact fun _ _ => .ok (Nat.le_refl _)

theorem afterBlanks {run : Char → List Char → Except Error (α × List Char)}
    {shorter : ∀ {c s v rest}, run c s = .ok (v, rest) → rest.length ≤ s.length}
    (h : ∀ c s more, Persists s more (run c s) (run c (s ++ more))) :
    (Reader.afterBlanks run shorter).Persistent := by
  intro s more
  refine Persists.afterBlank (e := .endOfValue) ?_ rfl ?_
  · intro blank
    simp only [Reader.afterBlanks, blank]
  · intro c t found grown
    simp only [Reader.afterBlanks, found, grown]
    exact h c t more

end Reader.Persistent

theorem Loop.run_persists (l : Loop σ α)
    (h : ∀ state s more, Persists s more (l.step state s) (l.step state (s ++ more)))
    (state : σ) (s more : List Char) :
    Persists s more (l.run state s) (l.run state (s ++ more)) := by
  induction len : s.length using Nat.strongRecOn generalizing state s with
  | ind n ih =>
    rw [l.run_eq, l.run_eq]
    have first := h state s more
    generalize step : l.step state s = x, l.step state (s ++ more) = y at first ⊢
    apply first.andThen
    · exact fun _ => rfl
    rintro turn rfl
    cases turn with
    | done v rest => exact .ok (Nat.le_refl _)
    | again state rest => exact ih rest.length (len ▸ l.shorter step) state rest rfl

end Spindle.Json
