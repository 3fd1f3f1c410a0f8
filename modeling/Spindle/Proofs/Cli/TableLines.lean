import Spindle.Proofs.Cli.Columns
import Spindle.Proofs.Cli.Output

/-!
# Lines of the table

The table has a line for every row and one for the header. Names, serials and models are written as
they are, so each line feed in one of them adds a line; nothing else in a snapshot does, and nothing
takes a line away.
-/

namespace Spindle

theorem Table.length_lines_render (c : Config) (m : Machine) :
    (Text.lines (render (c.available m)).toList).length =
      (c.available m).length + 1 + ((c.available m).map Row.lineFeeds).sum := by
  have lines : (c.available m).map (fun r => Text.lineFeeds (layOut widths (cells r))) =
      (c.available m).map Row.lineFeeds := List.map_congr_left fun r => lineFeeds_line
  have plain : Text.lineFeeds (layOut widths header) = 0 := Text.lineFeeds_eq_zero.mpr oneLine_header
  rw [render_eq, Text.length_lines_join, List.length_cons, List.length_map, List.map_cons,
    List.sum_cons, plain, List.map_map, Nat.zero_add, ← lines]
  rfl

namespace Cli

theorem stdout_of_shows_table {i : Invocation} {c : Config} {t : String} {m : Machine}
    (given : i.Shows .table c t) (accepted : Machine.ofText t = .ok m) (listed : c.available m ≠ []) :
    i.outcome.stdout = Table.render (c.available m) := by
  rw [outcome_of_shows given accepted]
  exact if_neg (by simpa using listed)

/-- The printed table has one line more than there are rows, and one more for each line feed in a
name, serial or model: it has a line for each row just if there is none in any of them. -/
theorem table_line_count {t : String} {m : Machine} (accepted : Machine.ofText t = .ok m) (c : Config)
    (listed : c.available m ≠ []) {i : Invocation} (given : i.Shows .table c t) :
    (Text.lines i.outcome.stdout.toList).length =
      (c.available m).length + 1 + ((c.available m).map Row.lineFeeds).sum ∧
    ((Text.lines i.outcome.stdout.toList).length = (c.available m).length + 1 ↔
      ∀ r ∈ c.available m, r.OneLine) := by
  have count : (Text.lines i.outcome.stdout.toList).length =
      (c.available m).length + 1 + ((c.available m).map Row.lineFeeds).sum := by
    rw [stdout_of_shows_table given accepted listed, Table.length_lines_render]
  have plain : ((c.available m).map Row.lineFeeds).sum = 0 ↔ ∀ r ∈ c.available m, r.OneLine := by
    rw [List.sum_eq_zero_iff_forall_eq_nat, List.forall_mem_map]
    exact forall₂_congr fun r _ => Row.lineFeeds_eq_zero
  exact ⟨count, by rw [← plain, count]; omega⟩

theorem spacedMachine_line_count :
    let t := (Json.Wire.write Table.spacedMachine).compact
    Machine.ofText t = .ok Table.spacedMachine ∧
      Config.default.available Table.spacedMachine ≠ [] ∧
      (fromInput .table t).Shows .table .default t ∧
      (Text.lines (fromInput .table t).outcome.stdout.toList).length = 3 := by
  intro t
  have accepted : Machine.ofText t = .ok Table.spacedMachine := Machine.ofText_write _
  have listed : Config.default.available Table.spacedMachine ≠ [] := by decide
  have given := fromInput_shows .table t
  obtain ⟨count, -⟩ := table_line_count accepted .default listed given
  exact ⟨accepted, listed, given, count.trans (by decide +kernel)⟩

/-- A machine with one free disk, of which the name has a line feed. -/
def splitMachine : Machine where
  systemId := "a"
  hostname := ""
  osystem := ""
  statusCode := 4
  disks := [{ Disk.new 1 .physical 2000000000 with name := "sda\nsdb" }]
  supportedFilesystems := []

/-- The name of one disk makes two lines of its row. -/
theorem splitMachine_adds_line :
    let t := (Json.Wire.write splitMachine).compact
    Machine.ofText t = .ok splitMachine ∧ (Config.default.available splitMachine).length = 1 ∧
      (fromInput .table t).Shows .table .default t ∧
      (Text.lines (fromInput .table t).outcome.stdout.toList).length = 3 := by
  intro t
  have accepted : Machine.ofText t = .ok splitMachine := Machine.ofText_write _
  have given := fromInput_shows .table t
  refine ⟨accepted, by decide, given, ?_⟩
  rw [stdout_of_shows_table given accepted (by decide), Table.length_lines_render]
  decide +kernel

end Cli

end Spindle
