import Spindle.Proofs.Device.Exact
import Spindle.Proofs.Json.RecordSpelling
import Spindle.Storage.Available

/-!
# Snapshots in another spelling

Blanks between the tokens of a snapshot and the way in which the characters of its strings are
written make no difference to the machine, and so none to what is reported of it.
-/

namespace Spindle

open Json

instance : SpellingFree DiskKind := ⟨DiskKind.tags.reader_respects⟩

instance : SpellingFree PartitionKind := ⟨PartitionKind.tags.reader_respects⟩

instance : SpellingFree GroupKind := ⟨GroupKind.tags.reader_respects⟩

open Field

instance : SpellingFree Filesystem :=
  Record.spellingFree ⟨required_respects _, defaulted_respects _ _, defaulted_respects _ _,
    defaulted_respects _ _, trivial⟩

instance : SpellingFree Partition :=
  Record.spellingFree ⟨required_respects _, required_respects _, defaulted_respects _ _,
    required_respects _, defaulted_respects _ _, defaulted_respects _ _, defaulted_respects _ _,
    trivial⟩

instance : SpellingFree Parent :=
  Record.spellingFree ⟨required_respects _, required_respects _, defaulted_respects _ _, trivial⟩

instance : SpellingFree Disk :=
  Record.spellingFree ⟨required_respects _, required_respects _, defaulted_respects _ _,
    required_respects _, defaulted_respects _ _, defaulted_respects _ _, defaulted_respects _ _,
    defaulted_respects _ _, defaulted_respects _ _, defaulted_respects _ _, defaulted_respects _ _,
    defaulted_respects _ _, defaulted_respects _ _, defaulted_respects _ _, defaulted_respects _ _,
    defaulted_respects _ _, defaulted_respects _ _, trivial⟩

instance : SpellingFree SupportedFilesystem :=
  Record.spellingFree ⟨required_respects _, required_respects _, trivial⟩

instance : SpellingFree Machine :=
  Record.spellingFree ⟨required_respects _, defaulted_respects _ _, defaulted_respects _ _,
    required_respects _, defaulted_respects _ _, defaulted_respects _ _, trivial⟩

theorem Machine.ofText_respelled {t t' : String} (respelled : Respelled t.toList t'.toList)
    {m : Machine} (reads : ofText t = .ok m) : ofText t' = .ok m := by
  rw [ofText_eq_ok] at reads ⊢
  exact SpellingFree.respects.whole respelled reads

/-- What is made of a snapshot: the machine, its free devices and the report on every device. -/
structure Shows (text : String) (m : Machine) : Prop where
  machine : Machine.ofText text = .ok m
  rows : ∀ c : Config, (Machine.ofText text).map c.available = .ok (c.available m)
  reports : ∀ c : Config,
    (Machine.ofText text).map (fun m => m.devices.map c.report) = .ok (m.devices.map c.report)

/-- Every spelling of a snapshot shows the same machine. -/
theorem spelling_irrelevant {t t' : String} (respelled : Respelled t.toList t'.toList)
    {m : Machine} (reads : Machine.ofText t = .ok m) : Shows t' m := by
  have same := Machine.ofText_respelled respelled reads
  exact ⟨same, fun c => by rw [same]; rfl, fun c => by rw [same]; rfl⟩

/-- The snapshot `faceText` with blanks, an escape in a key, a pair of surrogates, other digits of
half a pair and an escape in a string that is passed over. -/
def escapedFaceText : String :=
  "\x7b \"system\\u005Fid\":\"\\ud83d\\uDE00\" ,\n\"status_code\":4,\"x\":[\"\\uD800\\/\",-0.5]\x7d"

theorem faceText_respelled : Respelled faceText.toList escapedFaceText.toList := by
  have underscore : Quoted.IsUnit '_'.toNat ['\\', 'u', '0', '0', '5', 'F'] :=
    show Quoted.IsUnit (((0 * 16 + 0) * 16 + 5) * 16 + 15) _ from
      .digits ⟨by decide, .inl rfl⟩ ⟨by decide, .inl rfl⟩ ⟨by decide, .inl rfl⟩
        ⟨by decide, .inr rfl⟩
  have high : Quoted.IsUnit 0xD83D ['\\', 'u', 'd', '8', '3', 'd'] :=
    show Quoted.IsUnit (((13 * 16 + 8) * 16 + 3) * 16 + 13) _ from
      .digits ⟨by decide, .inl rfl⟩ ⟨by decide, .inl rfl⟩ ⟨by decide, .inl rfl⟩
        ⟨by decide, .inl rfl⟩
  have low : Quoted.IsUnit 0xDE00 ['\\', 'u', 'D', 'E', '0', '0'] :=
    show Quoted.IsUnit (((13 * 16 + 14) * 16 + 0) * 16 + 0) _ from
      .digits ⟨by decide, .inr rfl⟩ ⟨by decide, .inr rfl⟩ ⟨by decide, .inl rfl⟩
        ⟨by decide, .inl rfl⟩
  have half {c : Char} (digit : c = 'd' ∨ c = 'D') :
      Quoted.IsUnit 0xD800 ['\\', 'u', c, '8', '0', '0'] :=
    show Quoted.IsUnit (((13 * 16 + 8) * 16 + 0) * 16 + 0) _ from
      .digits ⟨by decide, digit⟩ ⟨by decide, .inl rfl⟩ ⟨by decide, .inl rfl⟩ ⟨by decide, .inl rfl⟩
  have key : Quoted.SameBody (['s', 'y', 's', 't', 'e', 'm'] ++ (['_'] ++ ['i', 'd']))
      (['s', 'y', 's', 't', 'e', 'm'] ++ (['\\', 'u', '0', '0', '5', 'F'] ++ ['i', 'd'])) :=
    (Quoted.SameBody.plain rfl).append
      (.char (.plain (by decide) (by decide) (by decide)) (.unit underscore) (.plain rfl))
  have face : Quoted.SameBody (['😀'] ++ [])
      ((['\\', 'u', 'd', '8', '3', 'd'] ++ ['\\', 'u', 'D', 'E', '0', '0']) ++ []) :=
    .char (.plain (by decide) (by decide) (by decide)) (.pair (by decide) high low) .nil
  have status : Quoted.SameBody ['s', 't', 'a', 't', 'u', 's', '_', 'c', 'o', 'd', 'e'] _ := .plain rfl
  have x : Quoted.SameBody ['x'] ['x'] := .plain rfl
  have slash : Quoted.SameBody (['\\', 'u', 'd', '8', '0', '0'] ++ (['/'] ++ []))
      (['\\', 'u', 'D', '8', '0', '0'] ++ (['\\', '/'] ++ [])) :=
    .half (by decide) (half (.inl rfl)) (half (.inr rfl))
      (.char (.plain (by decide) (by decide) (by decide)) (.short (by simp [Quoted.shortForms])) .nil)
  have number := Respelled.word (w := ['-', '0', '.', '5']) (by decide) (List.all_eq_true.mp rfl)
    (.cons rfl _) (.cons rfl _) (.mark (c := ']') rfl (.mark (c := '\x7d') rfl .nil))
  have skipped := Respelled.mark (c := ',') rfl (.string x (.mark (c := ':') rfl
    (.mark (c := '[') rfl (.string slash (.mark (c := ',') rfl number)))))
  have four := Respelled.word (w := ['4']) (by decide) (List.all_eq_true.mp rfl) (.cons rfl _)
    (.cons rfl _) skipped
  have members := Respelled.string key (.mark (c := ':') rfl (.string face (.inserted (b := ' ') rfl
    (.mark (c := ',') rfl (.inserted (b := '\n') rfl (.string status (.mark (c := ':') rfl four)))))))
  have whole := Respelled.mark (c := '\x7b') rfl (.inserted (b := ' ') rfl members)
  rw [faceText_toList]
  exact cast (congrArg (Respelled _) String.toList_ofList.symm) whole

theorem escapedFaceText_shows :
    Respelled faceText.toList escapedFaceText.toList ∧
      Shows escapedFaceText ⟨"😀", "", "", 4, [], []⟩ :=
  ⟨faceText_respelled, spelling_irrelevant faceText_respelled faceText_read⟩

end Spindle
