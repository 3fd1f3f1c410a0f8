import Mathlib.Data.List.DropRight
import Mathlib.Data.Nat.Digits.Defs
import Spindle.Cli.Table
import Spindle.Proofs.Storage.FreeDevices
import Spindle.Proofs.Storage.SizeText
import Spindle.Proofs.Text.Lines

/-!
# Columns

A cell that keeps to the width of its column is found again at the offset of the column. Sizes and
labels always keep to theirs, whatever the device.
-/

namespace Spindle

open Text (OneLine)

/-! ### Sizes -/

namespace Size

theorem length_unit_le (unit : Nat) : (units.getD unit "").length ≤ 2 := by
  have named : ∀ text ∈ units, text.length ≤ 2 := by decide
  rw [List.getD_eq_getElem?_getD]
  cases found : units[unit]? with
  | none => exact Nat.zero_le 2
  | some text => exact named text (List.mem_of_getElem? found)

theorem oneLine_unit (unit : Nat) : OneLine (units.getD unit "") := by
  have named : ∀ text ∈ units, OneLine text := by decide
  rw [List.getD_eq_getElem?_getD]
  cases found : units[unit]? with
  | none => exact List.not_mem_nil
  | some text => exact named text (List.mem_of_getElem? found)

theorem Numeral.Canonical.length_chars_le {x : Numeral} (canonical : x.Canonical) :
    x.chars.length ≤ x.whole.length + 3 := by
  have places := canonical.places
  rw [chars, List.length_append]
  split
  · rw [List.length_nil]
    omega
  · rw [List.length_cons]
    omega

/-- The longest size has three digits before the point and two behind it. -/
theorem length_format_le (size : Option UInt64) : (format size).length ≤ 9 := by
  match size with
  | none => decide
  | some n =>
    by_cases known : n = unknown
    · rw [known]
      decide
    · obtain ⟨a, shows, written⟩ := format_reading known
      have most := shows.most
      have numeral := (a.digits_canonical shows.least).length_chars_le
      have whole : a.digits.whole.length ≤ 3 := Nat.toDigits_length 10 _ 3 (by decide) (by omega)
      have unit := length_unit_le a.unit
      rw [← String.length_toList, written, Reading.chars, List.length_append, List.length_cons,
        String.length_toList]
      change a.digits.chars.length + ((units.getD a.unit "").length + 1) ≤ 9
      omega

theorem oneLine_format (size : Option UInt64) : OneLine (format size) := by
  match size with
  | none => decide
  | some n =>
    by_cases known : n = unknown
    · rw [known]
      decide
    · obtain ⟨a, shows, written⟩ := format_reading known
      have numeral : '\n' ∉ a.digits.chars :=
        (a.digits_canonical shows.least).notMem_chars rfl (by decide)
      rw [OneLine, written, Reading.chars, List.mem_append, List.mem_cons, not_or, not_or]
      exact ⟨numeral, by decide, oneLine_unit a.unit⟩

end Size

/-! ### Labels -/

namespace Device

/-- Every label, and every phrase that differs from it. -/
def wordings : List String :=
  ["Physical", "Volume group", "Cache set", "ISCSI", "Logical volume", "Bcache", "Virtual", "RAID 0",
    "RAID 1", "RAID 5", "RAID 6", "RAID 10", "Partition", "VMFS6", "physical disk", "volume group",
    "cache set", "logical volume", "bcache", "virtual disk"]

theorem wordings_plain : ∀ text ∈ wordings, text.length ≤ 16 ∧ OneLine text := by decide

theorem raid_mem_wordings (level : RaidLevel) : "RAID " ++ toString level.number ∈ wordings := by
  cases level <;> decide

theorem diskLabel_mem_wordings (d : Disk) : d.label ∈ wordings := by
  rw [Disk.label]
  split
  case h_5 =>
    -- a virtual disk, named for what it is built from
    split
    case h_2 level _ => exact raid_mem_wordings level
    all_goals decide
  all_goals decide

theorem diskPhrase_mem_wordings (d : Disk) : d.phrase ∈ wordings := by
  rw [Disk.phrase]
  split
  case h_5 =>
    split
    case h_2 level _ => exact raid_mem_wordings level
    all_goals decide
  all_goals decide

theorem label_mem_wordings : ∀ d : Device, d.label ∈ wordings
  | disk d => diskLabel_mem_wordings d
  | partition p => by
    rw [label, Partition.label]
    split <;> decide

theorem length_label_le (d : Device) : d.label.length ≤ 16 :=
  (wordings_plain _ d.label_mem_wordings).1

theorem oneLine_label (d : Device) : OneLine d.label :=
  (wordings_plain _ d.label_mem_wordings).2

end Device

namespace Config

theorem oneLine_of_mem_diskActions {c : Config} {d : Disk} {l : ActionLink}
    (member : l ∈ c.diskActions d) : OneLine l.label := by
  simp only [diskActions, List.mem_append, List.mem_ite_nil_right, List.mem_singleton] at member
  obtain (⟨-, rfl⟩ | ⟨-, rfl⟩) | ⟨-, member⟩ := member
  · decide
  · decide
  · split at member
    · obtain rfl := List.mem_singleton.mp member
      decide
    · obtain rfl := List.mem_singleton.mp member
      rw [Text.oneLine_append, Text.oneLine_append]
      exact ⟨⟨by decide, (Device.wordings_plain _ (Device.diskPhrase_mem_wordings d)).2⟩, by decide⟩

theorem oneLine_of_mem_actions {c : Config} {d : Device} {l : ActionLink}
    (member : l ∈ (c.row d).actions) : OneLine l.label := by
  cases d with
  | disk d => exact oneLine_of_mem_diskActions member
  | partition p =>
    have plain : ∀ l ∈ partitionActions, OneLine l.label := by decide
    exact plain l member

theorem eq_row_of_mem_available {c : Config} {m : Machine} {r : Row} (member : r ∈ c.available m) :
    ∃ d ∈ m.devices, c.row d = r := by
  rw [available_eq] at member
  obtain ⟨d, free, same⟩ := List.mem_map.mp member
  exact ⟨d, (List.mem_filter.mp free).1, same⟩

end Config

/-! ### Cells -/

namespace Table

theorem length_bootCell_le (boot : Option Bool) : (bootCell boot).length ≤ 3 := by
  obtain _ | _ | _ := boot <;> decide

theorem oneLine_bootCell (boot : Option Bool) : OneLine (bootCell boot) := by
  obtain _ | _ | _ := boot <;> decide

def numaCell (r : Row) : String := ",".intercalate (r.numaNodes.map fun n => toString n.toNat)

theorem oneLine_numaCell (r : Row) : OneLine (numaCell r) := by
  refine Text.oneLine_intercalate (by decide) fun s member => ?_
  obtain ⟨n, -, rfl⟩ := List.mem_map.mp member
  exact Text.oneLine_toString n.toNat

theorem oneLine_actionsCell {c : Config} {m : Machine} {r : Row} (member : r ∈ c.available m) :
    OneLine (" | ".intercalate (r.actions.map (·.label))) := by
  obtain ⟨d, -, rfl⟩ := Config.eq_row_of_mem_available member
  refine Text.oneLine_intercalate (by decide) fun s member => ?_
  obtain ⟨l, action, rfl⟩ := List.mem_map.mp member
  exact Config.oneLine_of_mem_actions action

/-! ### Layout -/

theorem toList_pad (width : Nat) (cell : String) :
    (pad width cell).toList = cell.toList ++ List.replicate (width - cell.length) ' ' := by
  rw [pad, String.toList_append, String.toList_ofList]

theorem length_pad {width : Nat} {cell : String} (fits : cell.length ≤ width) :
    (pad width cell).toList.length = width := by
  rw [toList_pad, List.length_append, List.length_replicate, String.length_toList]
  omega

theorem toList_pad_space (width : Nat) (cell : String) :
    (pad width cell).toList ++ [' '] =
      cell.toList ++ List.replicate (width - cell.length + 1) ' ' := by
  rw [toList_pad, List.append_assoc, ← List.replicate_succ']

theorem layOut_last (cell : String) : layOut [] [cell] = cell := String.intercalate_singleton

theorem toList_layOut (width : Nat) (widths : List Nat) (cell : String) (cells : List String) :
    (layOut (width :: widths) (cell :: cells)).toList =
      (pad width cell).toList ++ [' '] ++ (layOut widths cells).toList := by
  rw [layOut, String.toList_append, String.toList_append]
  rfl

/-- A line has the line feeds of its cells. -/
theorem lineFeeds_layOut {widths : List Nat} {cells : List String}
    (shape : cells.length = widths.length + 1) :
    Text.lineFeeds (layOut widths cells) = (cells.map Text.lineFeeds).sum := by
  induction widths generalizing cells with
  | nil =>
    obtain ⟨cell, rfl⟩ := List.length_eq_one_iff.mp shape
    rw [layOut_last, List.map_singleton, List.sum_singleton]
  | cons width widths ih =>
    obtain ⟨cell, cells, rfl⟩ := List.exists_cons_of_length_eq_add_one shape
    have spaces : '\n' ∉ List.replicate (width - cell.length + 1) ' ' := fun feed =>
      absurd (List.eq_of_mem_replicate feed) (by decide)
    rw [Text.lineFeeds, toList_layOut, toList_pad_space, List.count_append, List.count_append,
      List.count_eq_zero.mpr spaces, List.map_cons, List.sum_cons, ← ih (Nat.succ.inj shape)]
    rfl

/-- Every cell but the last keeps to the width of its column. -/
inductive Fits : List Nat → List String → Prop
  | last (cell : String) : Fits [] [cell]
  | cons {width : Nat} {widths : List Nat} {cell : String} {cells : List String} :
    cell.length ≤ width → Fits widths cells → Fits (width :: widths) (cell :: cells)

/-! ### Cutting a line into columns -/

def trimmed (cs : List Char) : List Char := cs.rdropWhile (· == ' ')

theorem trimmed_append_replicate (cs : List Char) (n : Nat) :
    trimmed (cs ++ List.replicate n ' ') = trimmed cs := by
  induction n with
  | zero => rw [List.replicate_zero, List.append_nil]
  | succ n ih =>
    rw [List.replicate_succ', ← List.append_assoc, trimmed, List.rdropWhile_concat_pos _ _ _ rfl]
    exact ih

/-- What stands between one offset and the next, and behind the last. -/
def cut : List Nat → List Char → List (List Char)
  | [], _ => []
  | [start], line => [line.drop start]
  | start :: stop :: offsets, line =>
    (line.drop start).take (stop - start) :: cut (stop :: offsets) line

/-- The offsets of columns of these widths, with a space between two columns. -/
def offsets : Nat → List Nat → List Nat
  | start, [] => [start]
  | start, width :: widths => start :: offsets (start + width + 1) widths

theorem cut_offsets (start stop : Nat) (widths : List Nat) (line : List Char) :
    cut (start :: offsets stop widths) line =
      (line.drop start).take (stop - start) :: cut (offsets stop widths) line := by
  cases widths <;> rfl

/-- Cells that keep to their columns are found there. -/
theorem cut_layOut {widths : List Nat} {cells : List String} (fits : Fits widths cells)
    (before : List Char) :
    (cut (offsets before.length widths) (before ++ (layOut widths cells).toList)).map trimmed =
      cells.map fun s => trimmed s.toList := by
  -- what stands before the cells grows, so that the offsets need not move
  induction fits generalizing before with
  | last cell =>
    rw [layOut_last, offsets, cut, List.drop_left]
    rfl
  | @cons width widths cell cells narrow _ ih =>
    have padded : ((pad width cell).toList ++ [' ']).length = width + 1 := by
      rw [List.length_append, length_pad narrow, List.length_singleton]
    have first : trimmed ((pad width cell).toList ++ [' ']) = trimmed cell.toList := by
      rw [toList_pad_space, trimmed_append_replicate]
    have others := ih (before ++ ((pad width cell).toList ++ [' ']))
    rw [List.length_append, padded, ← Nat.add_assoc] at others
    rw [toList_layOut, offsets, cut_offsets, List.map_cons, List.drop_left, Nat.add_assoc,
      Nat.add_sub_cancel_left, List.take_left' padded, first, ← Nat.add_assoc, ← List.append_assoc,
      others, List.map_cons]

/-! ### The table -/

theorem render_eq (rows : List Row) :
    render rows = String.join
      ((layOut widths header :: rows.map fun r => layOut widths (cells r)).map (· ++ "\n")) := by
  rw [render, List.map_cons, List.map_map]
  rfl

end Table

namespace Row

/-- The line feeds of the cells that come from a snapshot. -/
def lineFeeds (r : Row) : Nat :=
  Text.lineFeeds r.name + Text.lineFeeds (r.serial.getD "") + Text.lineFeeds (r.model.getD "")

/-- The cells that come from a snapshot keep to one line. -/
structure OneLine (r : Row) : Prop where
  name : Text.OneLine r.name
  serial : ∀ s ∈ r.serial, Text.OneLine s
  model : ∀ s ∈ r.model, Text.OneLine s

theorem lineFeeds_getD_eq_zero {cell : Option String} :
    Text.lineFeeds (cell.getD "") = 0 ↔ ∀ s ∈ cell, Text.OneLine s := by
  cases cell with
  | none => exact iff_of_true rfl nofun
  | some s =>
    rw [Option.getD_some, Text.lineFeeds_eq_zero]
    exact ⟨fun plain _ same => Option.some.inj same ▸ plain, fun each => each s rfl⟩

theorem lineFeeds_eq_zero {r : Row} : r.lineFeeds = 0 ↔ r.OneLine := by
  rw [lineFeeds, Nat.add_eq_zero_iff, Nat.add_eq_zero_iff, Text.lineFeeds_eq_zero,
    lineFeeds_getD_eq_zero, lineFeeds_getD_eq_zero]
  exact ⟨fun ⟨⟨name, serial⟩, model⟩ => ⟨name, serial, model⟩,
    fun plain => ⟨⟨plain.name, plain.serial⟩, plain.model⟩⟩

/-- The cells that come from a snapshot keep to their columns and to one line. -/
structure Fits (r : Row) : Prop where
  name : r.name.length ≤ 20
  serial : ∀ s ∈ r.serial, s.length ≤ 16
  model : ∀ s ∈ r.model, s.length ≤ 20
  numaNodes : (Table.numaCell r).length ≤ 6
  oneLine : r.OneLine

end Row

namespace Table

theorem lineFeeds_dash (cell : Option String) :
    Text.lineFeeds (cell.getD dash) = Text.lineFeeds (cell.getD "") := by
  cases cell <;> rfl

/-- Of the cells of a free device only those from the snapshot can have line feeds. -/
theorem lineFeeds_line {c : Config} {m : Machine} {r : Row} (member : r ∈ c.available m) :
    Text.lineFeeds (layOut widths (cells r)) = r.lineFeeds := by
  obtain ⟨d, -, same⟩ := Config.eq_row_of_mem_available member
  have size : Text.lineFeeds r.size = 0 := Text.lineFeeds_eq_zero.mpr <| by
    rw [← same, (c.row_agrees d).size]
    exact Size.oneLine_format _
  have label : Text.lineFeeds r.label = 0 := Text.lineFeeds_eq_zero.mpr <| by
    rw [← same, (c.row_agrees d).label]
    exact d.oneLine_label
  have boot := Text.lineFeeds_eq_zero.mpr (oneLine_bootCell r.boot)
  have numa := Text.lineFeeds_eq_zero.mpr (oneLine_numaCell r)
  have actions := Text.lineFeeds_eq_zero.mpr (oneLine_actionsCell member)
  rw [lineFeeds_layOut rfl]
  change Text.lineFeeds r.name + (Text.lineFeeds (r.serial.getD dash) +
    (Text.lineFeeds (r.model.getD dash) + (Text.lineFeeds (bootCell r.boot) +
    (Text.lineFeeds r.size + (Text.lineFeeds r.label + (Text.lineFeeds (numaCell r) +
    (Text.lineFeeds (" | ".intercalate (r.actions.map (·.label))) + 0))))))) = _
  rw [lineFeeds_dash, lineFeeds_dash, boot, size, label, numa, actions, Row.lineFeeds]
  omega

/-- A line cut at the offsets of the columns, without the spaces that pad them. -/
def columns (line : List Char) : List (List Char) :=
  (cut [0, 21, 38, 59, 65, 76, 93, 100] line).map trimmed

theorem columns_layOut {cells : List String} (fits : Fits widths cells) :
    columns (layOut widths cells).toList = cells.map fun s => trimmed s.toList :=
  cut_layOut fits []

theorem fits_header : Fits widths header := by
  repeat' constructor

theorem oneLine_header : OneLine (layOut widths header) := by
  rw [← Text.lineFeeds_eq_zero, lineFeeds_layOut rfl]
  rfl

/-- The columns of a line say what there is to say about a row, and dashes stand for the rest. -/
def Shows (line : List Char) (r : Row) : Prop :=
  columns line = [
    r.name, r.serial.getD "—", r.model.getD "—",
    (r.boot.map fun boot => if boot then "yes" else "no").getD "—", r.size, r.label,
    ",".intercalate (r.numaNodes.map fun n => toString n.toNat),
    " | ".intercalate (r.actions.map fun l => l.label)].map fun s => trimmed s.toList

theorem bootCell_eq (boot : Option Bool) :
    bootCell boot = (boot.map fun boot => if boot then "yes" else "no").getD "—" := by
  obtain _ | _ | _ := boot <;> rfl

/-- A known cell and the dash of an unknown one keep to their column. -/
theorem length_getD_dash_le {cell : Option String} {width : Nat} (pos : 0 < width)
    (known : ∀ s ∈ cell, s.length ≤ width) : (cell.getD dash).length ≤ width := by
  cases cell with
  | none => exact pos
  | some s => exact known s rfl

section
variable {c : Config} {m : Machine} {r : Row} (member : r ∈ c.available m)
include member

theorem length_size_le : r.size.length ≤ 10 := by
  obtain ⟨d, -, rfl⟩ := Config.eq_row_of_mem_available member
  rw [(c.row_agrees d).size]
  exact Nat.le_succ_of_le (Size.length_format_le _)

theorem length_label_le : r.label.length ≤ 16 := by
  obtain ⟨d, -, rfl⟩ := Config.eq_row_of_mem_available member
  rw [(c.row_agrees d).label]
  exact d.length_label_le

variable (fits : r.Fits)
include fits

theorem fits_cells : Fits widths (cells r) :=
  .cons fits.name <| .cons (length_getD_dash_le (by decide) fits.serial) <|
    .cons (length_getD_dash_le (by decide) fits.model) <|
    .cons (Nat.le_trans (length_bootCell_le r.boot) (by decide)) <|
    .cons (length_size_le member) <| .cons (length_label_le member) <|
    .cons fits.numaNodes (.last _)

theorem line_shows : Shows (layOut widths (cells r)).toList r := by
  rw [Shows, ← bootCell_eq]
  exact columns_layOut (fits_cells member fits)

theorem oneLine_line : OneLine (layOut widths (cells r)) := by
  rw [← Text.lineFeeds_eq_zero, lineFeeds_line member, Row.lineFeeds_eq_zero]
  exact fits.oneLine

end

/-- The cells that are made up keep to their columns. If those from the snapshot do so too, and keep
to one line, each row has a line of its own behind the header, and is read back from it by column. -/
theorem columns_render (c : Config) (m : Machine) :
    (∀ r ∈ c.available m,
      (bootCell r.boot).length ≤ 5 ∧ r.size.length ≤ 10 ∧ r.label.length ≤ 16) ∧
    (∀ size : Option UInt64, (Size.format size).length ≤ 10) ∧
    (∀ d : Device, d.label.length ≤ 16) ∧
    ((∀ r ∈ c.available m, r.Fits) →
      ∃ head lines, Text.lines (render (c.available m)).toList = head :: lines ∧
        columns head = header.map String.toList ∧
        List.Forall₂ Shows lines (c.available m)) := by
  refine ⟨fun r member => ?_, fun size => Nat.le_succ_of_le (Size.length_format_le size),
    Device.length_label_le, fun fits => ?_⟩
  · exact ⟨Nat.le_trans (length_bootCell_le r.boot) (by decide), length_size_le member,
      length_label_le member⟩
  · refine ⟨(layOut widths header).toList,
      (c.available m).map fun r => (layOut widths (cells r)).toList, ?_, ?_, ?_⟩
    · have plain : ∀ s ∈ layOut widths header ::
          (c.available m).map fun r => layOut widths (cells r), OneLine s := by
        refine List.forall_mem_cons.mpr ⟨oneLine_header, fun s line => ?_⟩
        obtain ⟨r, member, rfl⟩ := List.mem_map.mp line
        exact oneLine_line member (fits r member)
      rw [render_eq, Text.lines_join plain, List.map_cons, List.map_map]
      rfl
    · rw [columns_layOut fits_header]
      decide
    · rw [List.forall₂_map_left_iff, List.forall₂_same]
      exact fun r member => line_shows member (fits r member)

/-- A disk with a name that ends in spaces, and a partition on it. -/
def spacedMachine : Machine where
  systemId := "a"
  hostname := ""
  osystem := ""
  statusCode := 4
  disks := [{ Disk.new 1 .physical 1999999 with
    name := "größe  "
    serial := "S 1"
    numaNodeList := some [0, 12]
    partitions := [⟨1, .partition, "größe-1", 999, none, [], ""⟩] }]
  supportedFilesystems := []

theorem spacedMachine_columns :
    (∀ r ∈ Config.default.available spacedMachine, r.Fits) ∧
    ∃ head disk part,
      Text.lines (render (Config.default.available spacedMachine)).toList = [head, disk, part] ∧
      columns disk = ["größe", "S 1", "", "no", "2 MB", "Physical", "0,12", ""].map String.toList ∧
      columns part = ["größe-1", "—", "—", "—", "999 B", "Partition", "",
        "Remove partition... | Edit partition..."].map String.toList := by
  have fits : ∀ r ∈ Config.default.available spacedMachine, r.Fits := by
    have each : ∀ r ∈ Config.default.available spacedMachine,
        r.name.length ≤ 20 ∧ (∀ s ∈ r.serial, s.length ≤ 16) ∧ (∀ s ∈ r.model, s.length ≤ 20) ∧
        (numaCell r).length ≤ 6 ∧ r.lineFeeds = 0 := by decide
    intro r member
    obtain ⟨name, serial, model, numaNodes, oneLine⟩ := each r member
    exact ⟨name, serial, model, numaNodes, Row.lineFeeds_eq_zero.mp oneLine⟩
  obtain ⟨head, lines, written, -, shown⟩ := (columns_render .default spacedMachine).2.2.2 fits
  have free : Config.default.available spacedMachine =
      [Config.default.row spacedMachine.devices[0], Config.default.row spacedMachine.devices[1]] := by
    decide
  rw [free] at shown
  obtain _ | ⟨disk, _ | ⟨part, _ | _⟩⟩ := shown
  refine ⟨fits, head, _, _, written, disk.trans (by decide +kernel), part.trans (by decide +kernel)⟩

end Table

end Spindle
