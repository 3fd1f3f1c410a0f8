import Spindle.Proofs.Json.Compact
import Spindle.Proofs.Storage.RoundTrip
import Spindle.Proofs.Storage.Settings
import Spindle.Proofs.Yaml.FlowMappings
import Spindle.Proofs.Yaml.JsonScalars

/-!
# Settings written as JSON

The JSON text of settings is a flow mapping of YAML, so both readers make the same settings of it.
-/

namespace Spindle

namespace Yaml

open Config (Setting)

/-! ## Flow mappings as settings -/

/-- What an entry writes: a known key with a value of its type, or another key with any value. -/
inductive FlowEntry.Writes : Option Setting → FlowEntry → Prop
  | known {s : Setting} {x : FlowEntry} : String.ofList (x.key.map Piece.value) = s.key →
      x.value.Writes s → Writes (some s) x
  | unknown {x : FlowEntry} : String.ofList (x.key.map Piece.value) ∉ Config.keys →
      Writes none x

theorem FlowEntry.Writes.reads {w : Option Setting} {p : Pair} {x : FlowEntry}
    (writes : FlowEntry.Writes w x) (means : FlowEntry.Means p x) : Config.Draft.Reads p w := by
  obtain ⟨key, means⟩ := means
  cases writes with
  | unknown other => exact Pair.reads_unknown (key ▸ other)
  | known same writes => exact writes.reads ((congrArg String.ofList key).trans same) means

/-! ## Values as JSON writes them -/

def Placed.ofJson (s : String) : Placed := ⟨.blanks [], .quoted false (.ofJson s.toList)⟩

def Placed.ofNat (n : Nat) : Placed := ⟨.blanks [], .plain (.last (Numeral.ofNat n).text)⟩

def Brackets.ofJson (ss : List String) : Brackets where
  before := .blanks []
  members := ss.dropLast.map fun s => ⟨.blanks [], .quoted false (.ofJson s.toList), .blanks []⟩
  last := ss.getLast?.map .ofJson
  close := .blanks []

def FlowEntry.ofJson (key : String) (value : ValueText) : FlowEntry :=
  ⟨.blanks [], key.toList.map .ofJson, value, .blanks []⟩

/-! ### Their texts -/

theorem Slot.text_ofJson (s : String) :
    Slot.text (some (.ofJson s)) = Json.Quoted.write s.toList := Words.quoted_ofJson s.toList

theorem Slot.text_ofNat (n : Nat) : Slot.text (some (.ofNat n)) = Nat.toDigits 10 n :=
  Numeral.text_ofNat n

theorem FlowEntry.quotedKey_ofJson (key : String) (value : ValueText) :
    (FlowEntry.ofJson key value).quotedKey = Json.Quoted.write key.toList := by
  have spell : Piece.spell false (key.toList.map .ofJson) =
      key.toList.flatMap Json.Quoted.writeChar := by
    simp [Piece.spell, List.flatMap_map, Piece.text_ofJson]
  simp [quotedKey, ofJson, Words.quoted, Words.spelled, Words.mapRuns, Words.text, spell,
    Json.Quoted.write]

theorem FlowEntry.text_ofJson (key : String) (value : ValueText) :
    (FlowEntry.ofJson key value).text = Json.Quoted.write key.toList ++ (':' :: value.text) := by
  rw [FlowEntry.text, quotedKey_ofJson]
  simp [ofJson, Spacing.text]

/-- Items with a comma after each but the last one have commas between them. -/
theorem separated_eq (ts : List (List Char)) :
    Json.separated ts = ts.dropLast.flatMap (· ++ [',']) ++ ts.getLast?.getD [] := by
  induction ts with
  | nil => rfl
  | cons t ts ih =>
    cases ts with
    | nil => simp [Json.separated, Json.following]
    | cons u us =>
      have next : Json.separated (t :: u :: us) = t ++ (',' :: Json.separated (u :: us)) := rfl
      rw [next, ih]
      simp

theorem Brackets.text_ofJson (depth : Nat) (ss : List String) :
    (Brackets.ofJson ss).text = (Json.Value.array (ss.map .string)).chars .compact depth := by
  have written : (ss.map Json.Value.string).map (Json.Value.chars .compact (depth + 1)) =
      ss.map fun s => Json.Quoted.write s.toList := by
    simp [Json.Value.chars]
  have members : (Brackets.ofJson ss).members.flatMap Member.text =
      ss.dropLast.flatMap fun s => Json.Quoted.write s.toList ++ [','] := by
    simp [Brackets.ofJson, -List.map_dropLast, List.flatMap_map, Member.text, ScalarText.text,
      Spacing.text, Words.quoted_ofJson]
  have last : Slot.text (Brackets.ofJson ss).last =
      (ss.getLast?.map fun s => Json.Quoted.write s.toList).getD [] := by
    cases final : ss.getLast? with
    | none => simp [Brackets.ofJson, final, Slot.text]
    | some s => simp [Brackets.ofJson, final, Slot.text_ofJson]
  rw [Json.Value.chars_array_compact, written, separated_eq, Brackets.text, Brackets.inner, members,
    last, ← List.map_dropLast, List.getLast?_map, List.flatMap_map]
  simp [Brackets.ofJson, Spacing.text]

/-! ### Where they can stand -/

theorem fitsInside_none : Spacing.FitsInside (.blanks []) :=
  ⟨List.forall_mem_nil _, trivial, nofun⟩

theorem Placed.ofJson_fits {s : String} (ascii : IsAscii s.toList) :
    (Placed.ofJson s).before.FitsInside ∧ (Placed.ofJson s).scalar.Fits true 0 :=
  ⟨fitsInside_none, (Words.ofJson_fits ascii).1⟩

theorem Brackets.ofJson_fits {ss : List String} (ascii : ∀ s ∈ ss, IsAscii s.toList) :
    (Brackets.ofJson ss).before.FitsInside ∧ (Brackets.ofJson ss).FitsInner := by
  refine ⟨fitsInside_none, ?_, ?_, fitsInside_none⟩
  · intro i mem
    obtain ⟨s, listed, rfl⟩ := List.mem_map.mp mem
    have fits := Placed.ofJson_fits (ascii s (List.dropLast_subset ss listed))
    exact ⟨fits.1, fits.2, fitsInside_none⟩
  · intro p mem
    obtain ⟨s, final, rfl⟩ := Option.map_eq_some_iff.mp mem
    exact Placed.ofJson_fits (ascii s (List.mem_of_getLast? final))

/-- A key without spaces is a single word. -/
theorem FlowEntry.ofJson_fits {key : String} {value : ValueText} (ascii : IsAscii key.toList)
    (noSpace : ' ' ∉ key.toList) (short : Cursor.byteCount (Json.Quoted.write key.toList) ≤ 1024)
    (fits : value.FitsInside) : (FlowEntry.ofJson key value).Fits where
  before := fitsInside_none
  key := by
    intro p mem
    obtain ⟨c, listed, rfl⟩ := List.mem_map.mp mem
    exact Piece.ofJson_fits (ascii c listed) fun space => noSpace (space ▸ listed)
  short := by rwa [quotedKey_ofJson]
  value := fits
  after := fitsInside_none

/-! ### Their characters -/

theorem Slot.isAllowed_ofNat (n : Nat) :
    ∀ b ∈ Slot.text (some (.ofNat n)), isAllowed b = true := by
  rw [Slot.text_ofNat]
  exact fun b mem => isAllowed_of_isWord (Numeral.isWord_of_mem_toDigits mem)

theorem Slot.isAllowed_ofJson {s : String} (ascii : IsAscii s.toList) :
    ∀ b ∈ Slot.text (some (.ofJson s)), isAllowed b = true := by
  rw [Slot.text_ofJson]
  exact isAllowed_write ascii

theorem Brackets.isAllowed_ofJson {ss : List String} (ascii : ∀ s ∈ ss, IsAscii s.toList) :
    ∀ b ∈ (Brackets.ofJson ss).text, isAllowed b = true := by
  have items : ∀ ts : List (List Char), (∀ t ∈ ts, ∀ b ∈ t, isAllowed b = true) →
      ∀ b ∈ Json.separated ts, isAllowed b = true := by
    intro ts all b mem
    cases ts with
    | nil => cases mem
    | cons t ts =>
      simp only [Json.separated, Json.following, List.mem_append, List.mem_flatMap,
        List.mem_cons] at mem
      rcases mem with mem | ⟨u, listed, rfl | mem⟩
      · exact all t (by simp) b mem
      · decide
      · exact all u (by simp [listed]) b mem
  rw [Brackets.text_ofJson 0, Json.Value.chars_array_compact, List.forall_mem_cons,
    List.forall_mem_append]
  refine ⟨rfl, items _ ?_, List.all_eq_true.mp rfl⟩
  intro t mem
  simp only [List.map_map, List.mem_map] at mem
  obtain ⟨s, listed, rfl⟩ := mem
  exact isAllowed_write (ascii s listed)

theorem FlowEntry.isAllowed_ofJson {key : String} {value : ValueText} (ascii : IsAscii key.toList)
    (allowed : ∀ b ∈ value.text, isAllowed b = true) :
    ∀ b ∈ (FlowEntry.ofJson key value).text, isAllowed b = true := by
  rw [FlowEntry.text_ofJson, List.forall_mem_append, List.forall_mem_cons]
  exact ⟨isAllowed_write ascii, by decide, allowed⟩

/-! ### What is written -/

theorem Placed.ofJson_quotes (s : String) : (Placed.ofJson s).scalar.Quotes s :=
  ⟨false, .ofJson s.toList, rfl, by rw [Words.content_ofJson, String.ofList_toList]⟩

theorem Placed.ofNat_writes (n : UInt64) :
    ValueText.Writes (.minPartitionSize n) (.slot (some (.ofNat n.toNat))) := by
  have value : (Numeral.ofNat n.toNat).value = n.toNat := Numeral.value_ofNat n.toNat
  have small : (Numeral.ofNat n.toNat).value < UInt64.size := by
    rw [value]
    exact n.toNat_lt
  have same : (Numeral.ofNat n.toNat).value.toUInt64 = n := by simp [value]
  have writes : ValueText.Writes (.minPartitionSize (Numeral.ofNat n.toNat).value.toUInt64)
      (.slot (some (.ofNat n.toNat))) := .number (Numeral.ofNat_fits _) small
  rwa [same] at writes

theorem Brackets.ofJson_quotes (ss : List String) :
    List.Forall₂ ScalarText.Quotes ss (Brackets.ofJson ss).scalars := by
  have scalars : (Brackets.ofJson ss).scalars = ss.map fun s => (Placed.ofJson s).scalar := by
    cases final : ss.getLast? with
    | none => simp [Brackets.ofJson, scalars, List.getLast?_eq_none_iff.mp final]
    | some s =>
      have parts := List.dropLast_append_getLast? s final
      rw [Brackets.scalars, ← parts]
      simp [Brackets.ofJson, Function.comp_def, Placed.ofJson]
  rw [scalars, List.forall₂_map_right_iff]
  exact List.forall₂_same.mpr fun s _ => Placed.ofJson_quotes s

theorem FlowEntry.ofJson_writes {s : Setting} {value : ValueText} (writes : value.Writes s) :
    FlowEntry.Writes (some s) (.ofJson s.key value) := by
  refine .known ?_ writes
  have values : (s.key.toList.map Piece.ofJson).map Piece.value = s.key.toList := by
    rw [List.map_map]
    exact (List.map_congr_left fun c _ => Piece.value_ofJson c).trans (List.map_id _)
  exact (congrArg String.ofList values).trans String.ofList_toList

end Yaml

namespace Config

open Yaml (FlowEntry IsAscii Numeral isAllowed)

theorem ofDocument_flowEvents {ps : List Yaml.Pair} {ws : List (Option Setting)}
    (reads : List.Forall₂ Draft.Reads ps ws) :
    ofDocument ⟨Yaml.Pair.flowEvents ps, [], true⟩ =
      (ws.reduceOption.foldlM Draft.put ⟨none, none, none⟩).map (·.complete) := by
  simp only [ofDocument, Yaml.Pair.flowEvents, Draft.readMembers_pairs .doubleQuoted reads]
  cases ws.reduceOption.foldlM Draft.put ⟨none, none, none⟩ <;> rfl

/-- A flow mapping with quoted keys is read as the settings of its known keys, whatever their order
and layout. -/
theorem ofText_flowMapping {xs : List FlowEntry} {ws : List (Option Setting)}
    (fits : ∀ x ∈ xs, x.Fits) (allowed : ∀ c ∈ FlowEntry.mapping xs, isAllowed c = true)
    (writes : List.Forall₂ FlowEntry.Writes ws xs) :
    ReadAs (String.ofList (FlowEntry.mapping xs)) ws.reduceOption := by
  obtain ⟨ps, means, document⟩ := FlowEntry.document fits allowed
  have reads := Yaml.reads_all writes means FlowEntry.Writes.reads
  exact readAs_of_document (document ▸ ofDocument_flowEvents reads)

/-- The settings as the entries of a flow mapping. -/
def entries (c : Config) : List FlowEntry := [
  .ofJson "min_partition_size" (.slot (some (.ofNat c.minPartitionSize.toNat))),
  .ofJson "non_storage_fstypes" (.brackets (.ofJson c.nonStorageFstypes)),
  .ofJson "datastore_fstype" (.slot (some (.ofJson c.datastoreFstype)))]

def settings (c : Config) : List Setting :=
  [.minPartitionSize c.minPartitionSize, .nonStorageFstypes c.nonStorageFstypes,
    .datastoreFstype c.datastoreFstype]

theorem mapping_entries (c : Config) :
    FlowEntry.mapping c.entries = (Json.Wire.write c).chars .compact 0 := by
  have written : Json.Wire.write c = .object [
      ("min_partition_size", .number (.ofInt c.minPartitionSize.toNat)),
      ("non_storage_fstypes", .array (c.nonStorageFstypes.map .string)),
      ("datastore_fstype", .string c.datastoreFstype)] := rfl
  have number (n : Nat) : (Json.Literal.ofInt n).chars = Nat.toDigits 10 n := by
    simp [Json.Literal.chars, Json.Literal.ofInt]
  have line (depth : Nat) : Json.Spacing.compact.line depth = [] := rfl
  have colon : Json.Spacing.compact.colon = [] := rfl
  have texts := Yaml.Brackets.text_ofJson 1 c.nonStorageFstypes
  rw [written]
  simp [entries, FlowEntry.mapping, FlowEntry.moreText, FlowEntry.text_ofJson,
    Yaml.ValueText.text, Yaml.Slot.text_ofNat, Yaml.Slot.text_ofJson, texts, Json.Value.chars,
    Json.Value.memberChars, number, line, colon]

theorem entries_write (c : Config) :
    List.Forall₂ FlowEntry.Writes (c.settings.map some) c.entries :=
  .cons (FlowEntry.ofJson_writes (Yaml.Placed.ofNat_writes _))
    (.cons (FlowEntry.ofJson_writes (.brackets (Yaml.Brackets.ofJson_quotes _)))
      (.cons (FlowEntry.ofJson_writes (.text (Yaml.Placed.ofJson_quotes _))) .nil))

section
variable {c : Config} (ascii : ∀ s ∈ c.datastoreFstype :: c.nonStorageFstypes, IsAscii s.toList)
include ascii

theorem entries_fit : ∀ x ∈ c.entries, x.Fits := by
  obtain ⟨type, types⟩ := List.forall_mem_cons.mp ascii
  have number : Yaml.ValueText.FitsInside
      (.slot (some (.ofNat c.minPartitionSize.toNat))) := by
    rintro p ⟨⟩
    exact ⟨Yaml.fitsInside_none, Numeral.ofNat_plain _⟩
  have text : Yaml.ValueText.FitsInside (.slot (some (.ofJson c.datastoreFstype))) := by
    rintro p ⟨⟩
    exact Yaml.Placed.ofJson_fits type
  simp only [entries, List.forall_mem_cons]
  exact ⟨FlowEntry.ofJson_fits (by decide) (by decide) (by decide) number,
    FlowEntry.ofJson_fits (by decide) (by decide) (by decide) (Yaml.Brackets.ofJson_fits types),
    FlowEntry.ofJson_fits (by decide) (by decide) (by decide) text, List.forall_mem_nil _⟩

theorem isAllowed_entries : ∀ b ∈ FlowEntry.mapping c.entries, isAllowed b = true := by
  obtain ⟨type, types⟩ := List.forall_mem_cons.mp ascii
  simp only [entries, FlowEntry.mapping, FlowEntry.moreText, List.flatMap_cons, List.flatMap_nil,
    List.append_nil, List.forall_mem_cons, List.forall_mem_append]
  exact ⟨by decide, FlowEntry.isAllowed_ofJson (by decide) (Yaml.Slot.isAllowed_ofNat _),
    ⟨⟨by decide, FlowEntry.isAllowed_ofJson (by decide) (Yaml.Brackets.isAllowed_ofJson types)⟩,
      by decide, FlowEntry.isAllowed_ofJson (by decide) (Yaml.Slot.isAllowed_ofJson type)⟩,
    by decide, List.forall_mem_nil _⟩

/-- The settings that are read are those that were written, and then they are validated. -/
theorem ofText_compact :
    ofText (Json.Wire.write c).compact = c.validate.mapError .configuration := by
  have all : written c.settings = c := rfl
  have known : (c.settings.map some).reduceOption = c.settings := rfl
  have reads := ofText_flowMapping (entries_fit ascii) (isAllowed_entries ascii) (entries_write c)
  rw [mapping_entries, known] at reads
  have once : (c.settings.map Setting.key).Nodup := (by decide : keys.Nodup)
  have value := reads.1 once
  rw [all] at value
  rw [Json.Value.compact, value, validate]
  split
  · rfl
  · split <;> rfl

end

theorem validate_eq {c c' : Config} (accepted : c.validate = .ok c') : c = c' := by
  unfold validate at accepted
  split at accepted
  · cases accepted
  · split at accepted
    · cases accepted
    · exact Except.ok.inj accepted

/-- Settings are read alike from their JSON text by either reader: as themselves, if they are
accepted, and else with the same fault. -/
theorem readers_agree (c : Config) (ascii : ∀ s ∈ c.datastoreFstype :: c.nonStorageFstypes,
    IsAscii s.toList) :
    (∀ c', c.validate = .ok c' → ofText (Json.Wire.write c).compact = .ok c) ∧
    (∀ e, c.validate = .error e →
      ofText (Json.Wire.write c).compact = .error (.configuration e)) ∧
    Json.ofText Config (Json.Wire.write c).compact = .ok c ∧
    ofText (Json.Wire.write c).compact =
      ((Json.ofText Config (Json.Wire.write c).compact).mapError .snapshotParse).bind
        fun c => c.validate.mapError .configuration := by
  have json : Json.ofText Config (Json.Wire.write c).compact = .ok c :=
    (Json.roundTrips Config c).1
  have yaml := ofText_compact ascii
  refine ⟨fun c' accepted => ?_, fun e refused => ?_, json, ?_⟩
  · rw [yaml, accepted, validate_eq accepted]
    rfl
  · rw [yaml, refused]
    rfl
  · rw [yaml, json]
    rfl

/-- Texts that look like other things, and characters that need escapes. -/
def quotedSettings : Config := ⟨5, ["null", "", " [a,  #b] ", "\"\\"], "1\x00\n"⟩

theorem quotedSettings_agree :
    (∀ s ∈ quotedSettings.datastoreFstype :: quotedSettings.nonStorageFstypes,
      IsAscii s.toList) ∧
    (Json.Wire.write quotedSettings).compact =
      "\x7b\"min_partition_size\":5,\"non_storage_fstypes\":[\"null\",\"\",\" [a,  #b] \"," ++
        "\"\\\"\\\\\"],\"datastore_fstype\":\"1\\u0000\\n\"\x7d" ∧
    ofText (Json.Wire.write quotedSettings).compact = .ok quotedSettings ∧
    ofText (Json.Wire.write { quotedSettings with minPartitionSize := 0 }).compact =
      .error (.configuration .zeroMinPartitionSize) := by
  have ascii : ∀ s ∈ quotedSettings.datastoreFstype :: quotedSettings.nonStorageFstypes,
      IsAscii s.toList := by decide
  exact ⟨ascii, rfl, (readers_agree quotedSettings ascii).1 _ rfl,
    (readers_agree { quotedSettings with minPartitionSize := 0 } ascii).2.1 _ rfl⟩

end Config

end Spindle
