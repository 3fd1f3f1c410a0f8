import Spindle.Proofs.Json.RecordExact

/-!
# Which fields are filled

From the empty slots on, a member fills the field of its own key only, and an object is complete when
its required fields are filled.
-/

namespace Spindle.Json

theorem Placement.map_eq_free {p : Placement β} {f : β → γ} {r : Reader γ} :
    p.map f = .free r ↔ ∃ q, p = .free q ∧ q.map f = r := by
  cases p <;> simp [map]

namespace Fields

/-- The keys of the fields that have a value. -/
def taken : {αs : List Type} → Fields αs → Slots αs → List String
  | [], (), () => []
  | _ :: _, (f, fs), (some _, slots) => f.key :: taken fs slots
  | _ :: _, (_, fs), (none, slots) => taken fs slots

variable {αs : List Type} {fs : Fields αs} {slots : Slots αs} {key : String}

theorem taken_empty : fs.taken (.empty αs) = [] := by
  induction αs with
  | nil => rfl
  | cons α αs ih => exact ih

/-- A member fills the field of its key. -/
theorem taken_of_free {r : Reader (Slots αs)} (free : fs.place slots key = .free r)
    {s rest : List Char} {slots' : Slots αs} (reads : r.run s = .ok (slots', rest)) :
    ∀ k ∈ fs.taken slots', k = key ∨ k ∈ fs.taken slots := by
  induction αs with
  | nil => cases free
  | cons α αs ih =>
    obtain ⟨f, fs⟩ := fs
    obtain ⟨slot, slots⟩ := slots
    by_cases same : f.key = key
    · cases slot with
      | some v => simp [place, same] at free
      | none =>
        rw [place_of_key same] at free
        obtain rfl := Placement.free.inj free
        obtain ⟨v, -, rfl⟩ := Reader.map_eq_ok.mp reads
        exact fun k mem => (List.mem_cons.mp mem).imp_left fun self => self.trans same
    · rw [place_of_other same] at free
      obtain ⟨q, inner, rfl⟩ := Placement.map_eq_free.mp free
      obtain ⟨filled, reads', rfl⟩ := Reader.map_eq_ok.mp reads
      have others := ih inner reads'
      cases slot with
      | none => exact others
      | some v =>
        intro k mem
        obtain rfl | mem := List.mem_cons.mp mem
        · exact .inr List.mem_cons_self
        · exact (others k mem).imp_right (List.mem_cons_of_mem _)

theorem taken_of_complete {vs : Values αs} (complete : fs.complete slots = .ok vs) :
    ∀ k ∈ fs.required, k ∈ fs.taken slots := by
  induction αs with
  | nil => nofun
  | cons α αs ih =>
    obtain ⟨f, fs⟩ := fs
    obtain ⟨slot, slots⟩ := slots
    rw [Fields.complete] at complete
    split at complete
    · cases complete
    · rename_i given
      split at complete
      · cases complete
      · rename_i others
        have others := ih others
        intro k mem
        rw [required] at mem
        cases slot with
        | some v =>
          split at mem
          · obtain rfl | mem := List.mem_cons.mp mem
            · exact List.mem_cons_self
            · exact List.mem_cons_of_mem _ (others k mem)
          · exact List.mem_cons_of_mem _ (others k mem)
        | none =>
          -- without a value the field has a default, so its key is not required
          rw [show f.absent = _ from given] at mem
          exact others k mem

theorem key_of_find? {f : Field α} (found : fs.find? key = some ⟨α, f⟩) : f.key = key := by
  induction αs with
  | nil => cases found
  | cons β αs ih =>
    obtain ⟨g, fs⟩ := fs
    rw [find?] at found
    split at found
    · rename_i same
      cases found
      exact same
    · exact ih found

end Fields

end Spindle.Json
