import Spindle.Proofs.Json.Endings
import Spindle.Proofs.Json.TokenGrammar

/-!
# Keys that are repeated

A known key may stand in an object once. Where it stands again the object is refused as soon as the
key has been read: its value and all that follows are not looked at.
-/

namespace Spindle.Json

/-- When a known key is written again behind members that have it, it is reported, whatever comes
after it. -/
def RefusesRepeats (S : Type) [Wire S] {αs : List Type} (fs : Fields αs) : Prop :=
  ∀ (ms : List Member) (key rest : String), (∀ m ∈ ms, m.Fits fs) → Once fs.keys ms →
    key ∈ fs.keys → key ∈ ms.map Member.key →
    ∃ e, ofText S ("\x7b" ++ String.ofList (separated (ms.map fun m => m.chars)) ++ ",\"" ++ key ++
        "\"" ++ rest) = .error e ∧
      e.message = "duplicate field `" ++ key ++ "`"

/-! ### The place of a key that has been read -/

/-- The field of the key has been filled by the member that had it. -/
theorem Fields.place_of_seen {αs : List Type} {fs : Fields αs} {ms : List Member} {key : String}
    (parses : ∀ m ∈ ms, fs.All fun _ f => m.key = f.key → ∃ v, f.reader.whole m.value = .ok v)
    (known : key ∈ fs.keys) (seen : key ∈ ms.map Member.key) :
    fs.place (fs.filled ms) key = .taken := by
  induction αs with
  | nil => cases known
  | cons α αs ih =>
    obtain ⟨f, fs⟩ := fs
    by_cases same : f.key = key
    · obtain ⟨v, given⟩ := Field.given_isSome (fun m mem => (parses m mem).1) (same ▸ seen)
      rw [filled, given]
      exact if_pos same
    · have others := ih (fun m mem => (parses m mem).2)
        ((List.mem_cons.mp known).resolve_left (Ne.symm same))
      rw [filled, place_of_other same, others]
      rfl

/-! ### Records -/

namespace Record

section
variable {αs : List Type} {fs : Fields αs} {ms : List Member} (fits : ∀ m ∈ ms, m.Fits fs)
  {key : String} (known : key ∈ fs.keys) (seen : key ∈ ms.map Member.key)
  {b before body : List Char} (blank : Blank b) (before_blank : Blank before)
  (spells : Quoted.read true (body ++ ['"']) = .ok (key.toList, []))
include fits known seen blank before_blank spells

theorem stepObject_repeated (rest : List Char) :
    stepObject fs (false, fs.filled ms) (b ++ ',' :: (before ++ '"' :: (body ++ '"' :: rest))) =
      .error (.duplicateField key) := by
  have next : nextMember false (b ++ ',' :: (before ++ '"' :: (body ++ '"' :: rest))) =
      .ok (.key (body ++ '"' :: rest)) :=
    nextMember_eq_key.mpr
      ⟨_, skipBlank_blank_cons blank rfl _, skipBlank_blank_cons before_blank rfl _⟩
  have reads : Quoted.read true (body ++ '"' :: rest) = .ok (key.toList, rest) := by
    obtain ⟨body', -, text, again⟩ := Quoted.read_form spells
    obtain rfl : body = body' := by simpa using text
    exact again rest
  have taken := Fields.place_of_seen (fun m mem => (fits m mem).known) known seen
  simp only [stepObject, next, reads, String.ofList_toList, taken]

end

variable {αs : List Type} {r : Record S αs} (lawful : r.Lawful) {ms : List Member}
  (fits : ∀ m ∈ ms, m.Fits r.fields) (once : Once r.fields.keys ms)
include lawful fits once

/-- Blanks before the key and the way its characters are written make no difference. -/
theorem Lawful.whole_repeated {key : String} (known : key ∈ r.fields.keys)
    (seen : key ∈ ms.map Member.key) {before body : List Char} (blank : Blank before)
    (spells : Quoted.read true (body ++ ['"']) = .ok (key.toList, [])) (rest : List Char) :
    r.reader.whole ('\x7b' :: (separated (ms.map fun m => m.chars) ++
        ',' :: (before ++ '"' :: (body ++ '"' :: rest)))) = .error (.duplicateField key) := by
  have some : ms.isEmpty = false := by
    cases ms with
    | nil => cases seen
    | cons => rfl
  obtain ⟨b, b_blank, runs⟩ := run_separated lawful.persistent lawful.nodup fits once
  rw [some] at runs
  have step := stepObject_repeated fits known seen b_blank blank spells rest
  have run := (runs _ (.cons rfl _)).trans (Loop.run_error step)
  rw [reader, Reader.whole_map, Reader.whole, Reader.afterBlanks_run (skipBlank_cons rfl _)]
  simp only [readValues, if_neg (show ¬ '\x7b' = '[' by decide), if_true, run]
  rfl

omit fits once in
theorem Lawful.refusesRepeats
    (plain : ∀ key ∈ r.fields.keys, key.toList.flatMap Quoted.writeChar = key.toList) :
    @RefusesRepeats S r.wire αs r.fields := by
  intro ms key rest fits once known seen
  have spells : Quoted.read true (key.toList ++ ['"']) = .ok (key.toList, []) := by
    have reads : Quoted.read true (key.toList.flatMap Quoted.writeChar ++ ['"']) = _ :=
      Quoted.read_write key.toList []
    rwa [plain key known] at reads
  have refused := lawful.whole_repeated fits once known seen .nil spells rest.toList
  refine ⟨.duplicateField key, ?_, rfl⟩
  show r.reader.whole _ = _
  simpa using refused

end Record

end Spindle.Json
