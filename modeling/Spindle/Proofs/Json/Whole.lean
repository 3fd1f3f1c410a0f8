import Mathlib.Data.List.TakeWhile
import Spindle.Proofs.Json.Persistence

/-!
# Texts that are read whole

A reader whose readings persist takes a text that it reads whole, up to blanks at its end, off the
front of every longer text.
-/

namespace Spindle.Json

def Blank (s : List Char) : Prop := ∀ c ∈ s, isBlank c = true

theorem Blank.nil : Blank [] := nofun

theorem Blank.append {b s : List Char} (first : Blank b) (second : Blank s) : Blank (b ++ s) :=
  fun c mem => (List.mem_append.mp mem).elim (first c) (second c)

theorem skipBlank_append_of_blank {b : List Char} (blank : Blank b) (s : List Char) :
    skipBlank (b ++ s) = skipBlank s := List.dropWhile_append_of_pos blank

theorem skipBlank_cons {c : Char} (notBlank : isBlank c = false) (s : List Char) :
    skipBlank (c :: s) = c :: s := List.dropWhile_cons_of_neg (by rw [notBlank]; nofun)

theorem skipBlank_blank_cons {b : List Char} (blank : Blank b) {c : Char}
    (notBlank : isBlank c = false) (s : List Char) : skipBlank (b ++ c :: s) = c :: s := by
  rw [skipBlank_append_of_blank blank, skipBlank_cons notBlank]

theorem skipBlank_eq_nil {s : List Char} : skipBlank s = [] ↔ Blank s := by
  rw [skipBlank, List.dropWhile_eq_nil_iff]
  rfl

theorem skipBlank_split (s : List Char) : ∃ b, Blank b ∧ s = b ++ skipBlank s :=
  ⟨s.takeWhile isBlank, fun _ => List.mem_takeWhile_imp, List.takeWhile_append_dropWhile.symm⟩

theorem skipBlank_skipBlank (s : List Char) : skipBlank (skipBlank s) = skipBlank s := by
  obtain ⟨b, blank, text⟩ := skipBlank_split s
  rw [← skipBlank_append_of_blank blank (skipBlank s), ← text]

theorem skipBlank_form {s t : List Char} {c : Char} (found : skipBlank s = c :: t) :
    ∃ b, Blank b ∧ s = b ++ c :: t ∧ isBlank c = false := by
  obtain ⟨b, blank, text⟩ := skipBlank_split s
  refine ⟨b, blank, found ▸ text, ?_⟩
  have head := List.head?_dropWhile_not isBlank s
  rw [show s.dropWhile isBlank = c :: t from found] at head
  simpa using head

/-- The blanks in front of a mark, of which there are none where the text starts at it. -/
theorem skipBlank_gap {later : Prop} {s t : List Char} {c : Char} (found : skipBlank s = c :: t)
    (start : later → skipBlank s = s) :
    ∃ gap, Blank gap ∧ (later → gap = []) ∧ s = gap ++ c :: t := by
  obtain ⟨gap, blank, text, -⟩ := skipBlank_form found
  refine ⟨gap, blank, fun h => ?_, text⟩
  have same := start h
  rw [found] at same
  rw [← same] at text
  exact by simpa using text

theorem continuesNumber_of_isBlank {c : Char} (blank : isBlank c = true) :
    continuesNumber c = false := by
  simp only [isBlank, Bool.or_eq_true, decide_eq_true_eq] at blank
  obtain ((rfl | rfl) | rfl) | rfl := blank <;> rfl

theorem Delimits.blank_append {b s : List Char} (blank : Blank b) (delimits : Delimits s) :
    Delimits (b ++ s) := by
  cases b with
  | nil => exact delimits
  | cons c b =>
    intro d first
    obtain rfl := Option.some.inj first
    exact continuesNumber_of_isBlank (blank c List.mem_cons_self)

theorem Delimits.cons {c : Char} (ends : continuesNumber c = false) (s : List Char) :
    Delimits (c :: s) := by
  intro d first
  obtain rfl := Option.some.inj first
  exact ends

namespace Reader

/-- Reads `text` at the front of every text that does not go on with a number; blanks at the end
of `text` may be left. -/
def Takes (r : Reader α) (text : List Char) (v : α) : Prop :=
  ∃ b, Blank b ∧ ∀ rest, Delimits rest → r.run (text ++ rest) = .ok (v, b ++ rest)

theorem whole_eq_ok {r : Reader α} {text : List Char} {v : α} :
    r.whole text = .ok v ↔ ∃ b, Blank b ∧ r.run text = .ok (v, b) := by
  constructor
  · intro reads
    unfold whole at reads
    cases run : r.run text with
    | error e =>
      rw [run] at reads
      cases reads
    | ok read =>
      obtain ⟨w, b⟩ := read
      rw [run] at reads
      dsimp only at reads
      split at reads
      · cases reads
        exact ⟨b, skipBlank_eq_nil.mp ‹_›, rfl⟩
      · cases reads
  · rintro ⟨b, blank, run⟩
    rw [whole, run]
    exact if_pos (skipBlank_eq_nil.mpr blank)

theorem Takes.whole {r : Reader α} {text : List Char} {v : α} (takes : r.Takes text v) :
    r.whole text = .ok v := by
  obtain ⟨b, blank, run⟩ := takes
  have alone := run [] nofun
  rw [List.append_nil, List.append_nil] at alone
  exact whole_eq_ok.mpr ⟨b, blank, alone⟩

theorem Persistent.takes {r : Reader α} (persistent : r.Persistent) {text : List Char} {v : α}
    (reads : r.whole text = .ok v) : r.Takes text v := by
  obtain ⟨b, blank, run⟩ := whole_eq_ok.mp reads
  refine ⟨b, blank, fun rest delimits => ?_⟩
  have persists := persistent text rest
  rw [run] at persists
  exact persists.2 fun _ => delimits

theorem map_eq_ok {r : Reader α} {f : α → β} {s rest : List Char} {w : β} :
    (r.map f).run s = .ok (w, rest) ↔ ∃ v, r.run s = .ok (v, rest) ∧ f v = w := by
  rw [map]
  dsimp only
  cases r.run s with
  | error e => simp
  | ok read =>
    obtain ⟨v, t⟩ := read
    constructor
    · rintro ⟨⟩
      exact ⟨v, rfl, rfl⟩
    · rintro ⟨_, ⟨⟩, rfl⟩
      rfl

theorem whole_map (r : Reader α) (f : α → β) (text : List Char) :
    (r.map f).whole text = (r.whole text).map f := by
  simp only [whole, map]
  cases r.run text with
  | error e => rfl
  | ok read =>
    dsimp only
    split <;> rfl

theorem afterBlanks_run {run : Char → List Char → Except Error (α × List Char)}
    {shorter : ∀ {c s v rest}, run c s = .ok (v, rest) → rest.length ≤ s.length}
    {s t : List Char} {c : Char} (h : skipBlank s = c :: t) :
    (Reader.afterBlanks run shorter).run s = run c t := by
  simp only [afterBlanks, h]

end Reader

namespace Loop

variable {l : Loop σ α} {state next : σ} {s rest : List Char} {v : α}

theorem run_again (step : l.step state s = .ok (.again next rest)) :
    l.run state s = l.run next rest := by rw [run_eq, step]

theorem run_done (step : l.step state s = .ok (.done v rest)) :
    l.run state s = .ok (v, rest) := by rw [run_eq, step]

theorem run_error {e : Error} (step : l.step state s = .error e) : l.run state s = .error e := by
  rw [run_eq, step]

end Loop

end Spindle.Json
