import Spindle.Proofs.Json.RecordRoundTrip

/-!
# Where a record ends

The bracket or brace that opens a record is closed by the last character that belongs to it, so the
record is read alike whatever follows. A number has no such end, which is why the readings of
`Persistence` make a condition of what follows; a record needs none.
-/

namespace Spindle.Json

/-! ### Readings that nothing can change -/

/-- Whatever follows what was taken, the reading is the same. -/
def Reader.Closes (r : Reader α) : Prop :=
  ∀ {s v rest}, r.run s = .ok (v, rest) → ∀ more, r.run (s ++ more) = .ok (v, rest ++ more)

theorem Persists.grown {s more : List Char} {x y : Except Error β} [Leaves β] {read : β}
    (persists : Persists s more x y) (reads : x = .ok read) (left : Leaves.rest read ≠ []) :
    y = .ok (Leaves.extend read more) := by
  subst reads
  exact persists.2 fun empty => absurd empty left

theorem ne_nil_of_shorter {s t : List Char} (shorter : t.length < s.length) : s ≠ [] := by
  rintro rfl
  cases shorter

namespace Record

theorem stepObject_done {αs : List Type} {fs : Fields αs} {state : Bool × Slots αs} {s rest : List Char} {vs : Values αs} :
    stepObject fs state s = .ok (.done vs rest) ↔
      skipBlank s = '\x7d' :: rest ∧ fs.complete state.2 = .ok vs := by
  have close : nextMember state.1 s = .ok (.close rest) ↔ skipBlank s = '\x7d' :: rest :=
    nextMember_eq_close
  rw [← close]
  constructor
  · intro step
    obtain ⟨rest, vs, next, complete, ⟨⟩⟩ | ⟨t, key, u, r, -, -, -, member⟩ :=
      stepObject_eq_ok.mp step
    · exact ⟨next, complete⟩
    · obtain ⟨_, _, _, -, -, ⟨⟩⟩ := readMember_eq_ok.mp member
  · rintro ⟨next, complete⟩
    exact stepObject_eq_ok.mpr (.inl ⟨rest, vs, next, complete, rfl⟩)

section
variable {αs : List Type} {fs : Fields αs} (persistent : fs.Persistent)
include persistent

theorem readArray_append (name : String) (size : Nat) {i : Nat} {s rest : List Char}
    {vs : Values αs} (reads : readArray name size i fs s = .ok (vs, rest)) (more : List Char) :
    readArray name size i fs (s ++ more) = .ok (vs, rest ++ more) := by
  induction αs generalizing i s with
  | nil => exact readArray_nil.mpr (skipBlank_append (readArray_nil.mp reads) more)
  | cons α αs ih =>
    obtain ⟨f, fs⟩ := fs
    obtain ⟨v, vs⟩ := vs
    obtain ⟨head, tail⟩ := persistent
    obtain ⟨next, beyond⟩ | ⟨t, u, next, item, others⟩ := readArray_cons.mp reads
    · have grown := skipBlank_append (nextItem_eq_close.mp next) more
      exact readArray_cons.mpr (.inl ⟨nextItem_eq_close.mpr grown, beyond⟩)
    · -- the fields that follow take something, so the item has not used up the text
      have itemLeft : u ≠ [] := ne_nil_of_shorter (readArray_shorter others)
      have nextLeft : t ≠ [] := ne_nil_of_shorter (f.reader.shorter item)
      have next' := (nextItem_persists _ s more).grown next nextLeft
      have item' := (head t more).grown item itemLeft
      exact readArray_cons.mpr (.inr ⟨t ++ more, u ++ more, next', item', ih tail others⟩)

theorem run_object_append {state : Bool × Slots αs} {s rest : List Char} {vs : Values αs}
    (run : (object fs).run state s = .ok (vs, rest)) (more : List Char) :
    (object fs).run state (s ++ more) = .ok (vs, rest ++ more) := by
  induction len : s.length using Nat.strongRecOn generalizing state s with
  | ind n ih =>
    obtain done | ⟨next, t, step, run⟩ := Loop.run_eq_ok.mp run
    · obtain ⟨found, complete⟩ := stepObject_done.mp done
      exact Loop.run_done (stepObject_done.mpr ⟨skipBlank_append found more, complete⟩)
    · have left : t ≠ [] := ne_nil_of_shorter ((object fs).run_shorter run)
      have shorter : t.length < n := len ▸ (object fs).shorter step
      have again := (stepObject_persists persistent state s more).grown step left
      rw [Loop.run_again (l := object fs) again]
      exact ih t.length shorter run rfl

end

theorem reader_closes {αs : List Type} {r : Record S αs} (persistent : r.fields.Persistent) :
    r.reader.Closes := by
  intro s v rest run more
  obtain ⟨vs, values, rfl⟩ := Reader.map_eq_ok.mp run
  obtain ⟨c, t, found, values⟩ := Reader.afterBlanks_eq_ok.mp values
  refine Reader.map_eq_ok.mpr ⟨vs, Reader.afterBlanks_eq_ok.mpr
    ⟨c, t ++ more, skipBlank_append found more, readValues_eq_ok.mpr ?_⟩, rfl⟩
  obtain ⟨list, array⟩ | ⟨object, members⟩ := readValues_eq_ok.mp values
  · exact .inl ⟨list, readArray_append persistent _ _ array more⟩
  · exact .inr ⟨object, run_object_append persistent members more⟩

end Record

/-! ### Whole texts -/

/-- No text that is read can be cut short, and none can go on with anything but blanks. -/
structure EndsItself (read : String → Except ε α) (fault : Error → ε) : Prop where
  blanks : ∀ t v s, read t = .ok v → Blank s.toList → read (t ++ s) = .ok v
  goesOn : ∀ t v s, read t = .ok v → ¬ Blank s.toList →
    read (t ++ s) = .error (fault .trailingCharacters)
  /-- The text that is cut short would have to end in a blank. -/
  cut : ∀ t v c, read t = .ok v → t.toList.getLast? = some c → isBlank c = false →
    ∀ p : String, p.toList <+: t.toList → p ≠ t → ∃ e, read p = .error e

theorem Reader.Closes.whole_append {r : Reader α} (closes : r.Closes) {t : List Char} {v : α}
    (reads : r.whole t = .ok v) (s : List Char) :
    r.whole (t ++ s) = if skipBlank s = [] then .ok v else .error .trailingCharacters := by
  obtain ⟨b, blank, run⟩ := whole_eq_ok.mp reads
  rw [whole, closes run s]
  dsimp only
  rw [skipBlank_append_of_blank blank]

theorem endsItself_of_goesOn {read : String → Except ε α} {fault : Error → ε}
    (goesOn : ∀ t v, read t = .ok v → ∀ s : String,
      read (t ++ s) =
        if skipBlank s.toList = [] then .ok v else .error (fault .trailingCharacters)) :
    EndsItself read fault := by
  constructor
  · intro t v s reads blank
    rw [goesOn t v reads, if_pos (skipBlank_eq_nil.mpr blank)]
  · intro t v s reads more
    rw [goesOn t v reads, if_neg fun empty => more (skipBlank_eq_nil.mp empty)]
  · intro t v c reads last notBlank p isPrefix strict
    cases cut : read p with
    | error e => exact ⟨e, rfl⟩
    | ok w =>
      -- then the rest of the text is blank, its last character with it
      obtain ⟨s, text⟩ := isPrefix
      have whole : t = p ++ String.ofList s := by
        rw [← String.toList_inj, String.toList_append, String.toList_ofList, text]
      have again := goesOn p w cut (String.ofList s)
      rw [← whole, reads, String.toList_ofList] at again
      split at again
      · rename_i blank
        have left : s ≠ [] := by
          rintro rfl
          exact strict (by rw [whole]; simp)
        have last' : s.getLast? = some c := by
          rw [← last, ← text, List.getLast?_append, List.getLast?_eq_some_getLast left,
            Option.some_or]
        have isBlank := skipBlank_eq_nil.mp blank c (List.mem_of_getLast? last')
        rw [notBlank] at isBlank
        cases isBlank
      · cases again

theorem Record.Lawful.endsItself {αs : List Type} {r : Record S αs} (lawful : r.Lawful) :
    EndsItself (@ofText S r.wire) id := by
  refine endsItself_of_goesOn fun t v reads s => ?_
  rw [ofText, String.toList_append]
  exact Reader.Closes.whole_append (reader_closes lawful.persistent) reads s.toList

end Spindle.Json
