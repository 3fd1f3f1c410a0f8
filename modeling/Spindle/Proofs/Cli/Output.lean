import Spindle.Proofs.Cli.Exit
import Spindle.Proofs.Storage.RoundTrip

/-!
# What a run prints

The standard output of a run is a function of the settings and of the text of the snapshot. As a list
of records it is read back as the rows or reports that it stands for.
-/

namespace Spindle

open Json (Wire LawfulWire PersistentWire)

/-! ### Tables -/

theorem Table.toList_render (rows : List Row) :
    (render rows).toList =
      (line header).toList ++ (String.join (rows.map fun r => line (cells r))).toList := by
  rw [render, String.join_cons, String.toList_append]

theorem Table.toList_line_header : ∃ rest, (line header).toList = 'N' :: 'A' :: rest := by
  simp only [line, header, widths, layOut, pad, String.toList_append]
  exact ⟨_, rfl⟩

namespace Cli

theorem render_ne_noRows (rows : List Row) : Table.render rows ≠ noRows := by
  intro same
  have chars := congrArg String.toList same
  obtain ⟨rest, starts⟩ := Table.toList_line_header
  rw [Table.toList_render, starts] at chars
  have second : some 'A' = some 'o' := congrArg (fun cs => cs[1]?) chars
  exact absurd second (by decide)

/-! ### Lists of records -/

theorem blank_lineFeed : Json.Blank ['\n'] := by
  intro c member
  rw [List.mem_singleton.mp member]
  rfl

theorem ofText_listText [Wire α] [LawfulWire α] (vs : List α) :
    Json.ofText (List α) (listText vs) = .ok vs := by
  obtain ⟨b, left, takes⟩ := (PersistentWire.persistent (α := List α)).takes
    (LawfulWire.reads_back Json.Spacing.pretty_blank 0 vs)
  have run := takes ['\n'] (Json.Delimits.cons rfl [])
  have chars : (listText vs).toList = (Wire.write vs).chars .pretty 0 ++ ['\n'] := by
    simp [listText, Json.Value.pretty, String.toList_append]
  rw [Json.ofText, chars]
  exact Json.Reader.whole_eq_ok.mpr ⟨_, left.append blank_lineFeed, run⟩

/-! ### Runs on a snapshot -/

/-- What a run can show of a snapshot. -/
inductive View where
  | table
  | rows
  | reports
  deriving DecidableEq, Repr

namespace View

def command : View → String → Command
  | table, name => .available name false
  | rows, name => .available name true
  | reports, name => .classify name

def text (c : Config) (m : Machine) : View → String
  | table => if (c.available m).isEmpty then noRows else Table.render (c.available m)
  | rows => listText (c.available m)
  | reports => listText (m.devices.map c.report)

theorem snapshot?_command (v : View) (name : String) : (v.command name).snapshot? = some name := by
  cases v <;> rfl

theorem printed_command (v : View) (name : String) (c : Config) (m : Machine) :
    printed c m (v.command name) = v.text c m := by
  cases v <;> rfl

end View

structure Invocation where
  files : Files
  env : Environment
  words : List String

namespace Invocation

def outcome (i : Invocation) : Outcome := invoke i.files i.env i.words

/-- The run takes the settings `c`, from a file or by default, and the snapshot with the text `t`, from
a file or from the standard input, whatever it says about its log. -/
def Shows (i : Invocation) (v : View) (c : Config) (t : String) : Prop :=
  ∃ args name, Arguments.read i.env i.words = .ok args ∧ i.files.config args.config = .ok c ∧
    args.command = v.command name ∧ i.files.snapshotBytes name = some t.toUTF8

end Invocation

theorem fileText_toUTF8 (t : String) : fileText (some t.toUTF8) = .ok t := by
  have valid : t.toUTF8.IsValidUTF8 := t.isValidUTF8
  simp only [fileText, String.fromUTF8?, dif_pos valid]
  rfl

theorem machine_of_bytes {files : Files} {name t : String}
    (bytes : files.snapshotBytes name = some t.toUTF8) :
    files.machine name = Machine.ofText t := by
  have read : fileText (files.snapshotBytes name) = .ok t := by rw [bytes, fileText_toUTF8]
  unfold Files.machine
  unfold Files.snapshotBytes at read
  rw [read]

/-- Where the snapshot comes from and what is logged leave no trace in the outcome. -/
theorem outcome_of_shows {i : Invocation} {v : View} {c : Config} {t : String} {m : Machine}
    (given : i.Shows v c t) (accepted : Machine.ofText t = .ok m) :
    i.outcome = .done (v.text c m) := by
  obtain ⟨args, name, wellFormed, settings, command, bytes⟩ := given
  have printed : output i.files c args.command = .ok (v.text c m) := by
    rw [command, output_of_snapshot (v.snapshot?_command name), machine_of_bytes bytes, accepted,
      ← v.printed_command name]
  rw [Invocation.outcome, invoke_eq_run wellFormed, run, settings]
  dsimp only
  rw [printed]

theorem text_table_eq_noRows (c : Config) (m : Machine) :
    View.table.text c m = noRows ↔ c.available m = [] := by
  rw [View.text]
  split
  · rename_i empty
    simpa using empty
  · rename_i rows
    have some : c.available m ≠ [] := by simpa using rows
    exact iff_of_false (render_ne_noRows _) some

/-- A run on an accepted snapshot prints the rows or the reports so that they are read back from its
output, or the table of the same rows, with a line of its own for no rows. Settings and snapshot
decide alone. -/
theorem output_carries_result {t : String} {m : Machine} (accepted : Machine.ofText t = .ok m)
    (c : Config) :
    (∀ i : Invocation, i.Shows .rows c t → i.outcome.exit = 0 ∧
      Json.ofText (List Row) i.outcome.stdout = .ok (c.available m)) ∧
    (∀ i : Invocation, i.Shows .reports c t → i.outcome.exit = 0 ∧
      Json.ofText (List Report) i.outcome.stdout = .ok (m.devices.map c.report)) ∧
    (∀ i j : Invocation, i.Shows .table c t → j.Shows .rows c t →
      i.outcome.exit = 0 ∧
      (c.available m ≠ [] → i.outcome.stdout = Table.render (c.available m)) ∧
      (i.outcome.stdout = noRows ↔ Json.ofText (List Row) j.outcome.stdout = .ok [])) ∧
    ∀ (v : View) (i j : Invocation), i.Shows v c t → j.Shows v c t → i.outcome = j.outcome := by
  refine ⟨?_, ?_, ?_, ?_⟩
  · intro i rows
    rw [outcome_of_shows rows accepted]
    exact ⟨rfl, ofText_listText _⟩
  · intro i reports
    rw [outcome_of_shows reports accepted]
    exact ⟨rfl, ofText_listText _⟩
  · intro i j table rows
    rw [outcome_of_shows table accepted, outcome_of_shows rows accepted]
    refine ⟨rfl, fun some => ?_, ?_⟩
    · show View.table.text c m = _
      rw [View.text, if_neg (by simpa using some)]
    · show View.table.text c m = noRows ↔ Json.ofText (List Row) (listText _) = _
      rw [text_table_eq_noRows, ofText_listText, Except.ok.injEq]
  · intro v i j first second
    rw [outcome_of_shows first accepted, outcome_of_shows second accepted]

/-- A machine with one free disk, of which the name needs escapes. -/
def quotedMachine : Machine where
  systemId := "a"
  hostname := ""
  osystem := ""
  statusCode := 4
  disks := [{ Disk.new 1 .physical 2000000000 with name := "s\"d\na" }]
  supportedFilesystems := []

/-- A snapshot on the standard input and in a file. -/
def snapshotFiles (t : String) : Files where
  bytes name := if name = "machine.json" then some t.toUTF8 else none
  input := t.toUTF8

def View.words : View → String → List String
  | table, name => ["available", name]
  | rows, name => ["available", name, "--json"]
  | reports, name => ["classify", name]

def fromInput (v : View) (t : String) : Invocation :=
  ⟨snapshotFiles t, ⟨none, none, none⟩, v.words "-"⟩

def fromFile (v : View) (t : String) : Invocation :=
  ⟨snapshotFiles t, ⟨none, none, none⟩,
    "--log-level" :: "debug" :: "--log-json" :: v.words "machine.json"⟩

theorem fromInput_shows (v : View) (t : String) : (fromInput v t).Shows v .default t := by
  have wellFormed : Arguments.read ⟨none, none, none⟩ (v.words "-") =
      .ok ⟨none, "warn", false, v.command "-"⟩ := by
    cases v <;> simp [View.words, View.command, Arguments.read, Options.read, Options.none,
      Command.read, Operands.read, isValue, isFlag, attached?, Environment.flag, bind, Except.bind,
      pure, Except.pure]
  exact ⟨_, "-", wellFormed, rfl, rfl, rfl⟩

theorem fromFile_shows (v : View) (t : String) : (fromFile v t).Shows v .default t := by
  have wellFormed : Arguments.read ⟨none, none, none⟩
      ("--log-level" :: "debug" :: "--log-json" :: v.words "machine.json") =
      .ok ⟨none, "debug", true, v.command "machine.json"⟩ := by
    cases v <;> simp [View.words, View.command, Arguments.read, Options.read, Options.none,
      Options.setLogLevel, Command.read, Operands.read, isValue, isFlag, attached?, bind,
      Except.bind, pure, Except.pure]
  exact ⟨_, "machine.json", wellFormed, rfl, rfl, rfl⟩

theorem quotedMachine_printed :
    let t := (Wire.write quotedMachine).compact
    Machine.ofText t = .ok quotedMachine ∧
    Json.ofText (List Row) (fromInput .rows t).outcome.stdout =
      .ok [.ofDisk { Disk.new 1 .physical 2000000000 with name := "s\"d\na" }
        [⟨.addPartition, "Add partition..."⟩, ⟨.removeDisk, "Remove physical disk..."⟩]] ∧
    Json.ofText (List Report) (fromInput .reports t).outcome.stdout =
      .ok (quotedMachine.devices.map Config.default.report) ∧
    (fromInput .table t).outcome.stdout ≠ noRows ∧
    ∀ v, (fromInput v t).outcome = (fromFile v t).outcome := by
  intro t
  have accepted : Machine.ofText t = .ok quotedMachine := Machine.ofText_write quotedMachine
  obtain ⟨rows, reports, table, same⟩ := output_carries_result accepted .default
  have read := (rows _ (fromInput_shows .rows t)).2
  have free : Config.default.available quotedMachine =
      [.ofDisk { Disk.new 1 .physical 2000000000 with name := "s\"d\na" }
        [⟨.addPartition, "Add partition..."⟩, ⟨.removeDisk, "Remove physical disk..."⟩]] := by decide
  rw [free] at read
  have some := (table _ _ (fromInput_shows .table t) (fromInput_shows .rows t)).2.2
  rw [read] at some
  refine ⟨accepted, read, (reports _ (fromInput_shows .reports t)).2, ?_, ?_⟩
  · exact fun empty => nomatch Except.ok.inj (some.mp empty)
  · exact fun v => same v _ _ (fromInput_shows v t) (fromFile_shows v t)

end Cli

end Spindle
