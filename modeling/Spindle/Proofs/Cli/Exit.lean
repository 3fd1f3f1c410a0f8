import Spindle.Cli.Run

/-!
# How a run ends

What can fail in a run is the file of the settings and the snapshot, in this order. The first of
them that fails decides how the run ends, and a failed run prints nothing.
-/

namespace Spindle.Cli

/-- How a step ends that reads a file and takes its text. -/
inductive Verdict where
  | passed
  | unreadable
  | refused
  deriving DecidableEq, Repr

namespace Verdict

def exit : Verdict → UInt8
  | passed => 0
  | unreadable => 1
  | refused => 2

/-- A file that is missing or not UTF-8 is unreadable, whatever texts are accepted. -/
def ofFile (accepts : String → Bool) : Option ByteArray → Verdict
  | none => unreadable
  | some bytes =>
    if valid : bytes.IsValidUTF8 then
      if accepts (String.fromUTF8 bytes valid) then passed else refused
    else unreadable

theorem exit_eq_zero {v : Verdict} : v.exit = 0 ↔ v = passed := by
  cases v <;> decide

end Verdict

def acceptsSettings (text : String) : Bool :=
  match Config.ofDocument (.ofText text) with
  | .error _ => false
  | .ok c => c.validate.isOk

def acceptsSnapshot (text : String) : Bool := (Json.ofText Machine text).isOk

def Command.snapshot? : Command → Option String
  | available snapshot _ | classify snapshot => some snapshot
  | schema => none

namespace Files

/-- The bytes of a snapshot; a dash names the standard input. -/
def snapshotBytes (files : Files) (name : String) : Option ByteArray :=
  if isDash name then some files.input else files.bytes name

def settingsVerdict (files : Files) (name : String) : Verdict :=
  .ofFile acceptsSettings (files.bytes name)

def snapshotVerdict (files : Files) (name : String) : Verdict :=
  .ofFile acceptsSnapshot (files.snapshotBytes name)

/-- The verdicts on the files that a run reads, in order. -/
def verdicts (files : Files) (args : Arguments) : List Verdict :=
  (args.config.map files.settingsVerdict).toList ++
    (args.command.snapshot?.map files.snapshotVerdict).toList

end Files

/-! ### Steps -/

/-- A step gives a value if its verdict is that it passed, and else fails with the exit code of its
verdict. -/
def Follows (v : Verdict) (step : Except Error α) : Prop :=
  match step with
  | .ok _ => v = .passed
  | .error e => v ≠ .passed ∧ (Outcome.failed e).exit = v.exit

def Verdict.ofText (accepted : Bool) : Verdict := if accepted then .passed else .refused

theorem settings_follow (text : String) :
    Follows (.ofText (acceptsSettings text)) (Config.ofText text) := by
  unfold acceptsSettings Config.ofText
  cases Config.ofDocument (.ofText text) with
  | error fault => exact ⟨nofun, rfl⟩
  | ok c =>
    cases validated : c.validate with
    | error fault =>
      simp only [validated]
      exact ⟨nofun, rfl⟩
    | ok c =>
      simp only [validated]
      rfl

theorem snapshot_follows (text : String) :
    Follows (.ofText (acceptsSnapshot text)) (Machine.ofText text) := by
  unfold acceptsSnapshot Machine.ofText
  cases Json.ofText Machine text with
  | error fault => exact ⟨nofun, rfl⟩
  | ok m => rfl

theorem file_follows {accepts : String → Bool} {take : String → Except Error α}
    (follows : ∀ text, Follows (.ofText (accepts text)) (take text)) (bytes : Option ByteArray) :
    Follows (.ofFile accepts bytes)
      (match fileText bytes with
      | .error e => .error e
      | .ok text => take text) := by
  cases bytes with
  | none => exact ⟨nofun, rfl⟩
  | some bytes =>
    unfold fileText String.fromUTF8? Verdict.ofFile
    by_cases valid : bytes.IsValidUTF8
    · simp only [dif_pos valid]
      exact follows _
    · simp only [dif_neg valid]
      exact ⟨nofun, rfl⟩

theorem config_follows (files : Files) (name : String) :
    Follows (files.settingsVerdict name) (files.config (some name)) :=
  file_follows settings_follow _

theorem machine_follows (files : Files) (name : String) :
    Follows (files.snapshotVerdict name) (files.machine name) :=
  file_follows snapshot_follows _

/-! ### Runs -/

/-- The exit code of a run of which the steps have these verdicts. -/
def exitOf (verdicts : List Verdict) : UInt8 :=
  ((verdicts.find? (· ≠ .passed)).map Verdict.exit).getD 0

theorem exitOf_cons_passed (vs : List Verdict) : exitOf (.passed :: vs) = exitOf vs := rfl

theorem exitOf_cons_failed {v : Verdict} (failed : v ≠ .passed) (vs : List Verdict) :
    exitOf (v :: vs) = v.exit := by
  simp [exitOf, failed]

theorem exitOf_eq_zero {vs : List Verdict} : exitOf vs = 0 ↔ ∀ v ∈ vs, v = .passed := by
  induction vs with
  | nil => simp [exitOf]
  | cons v vs ih =>
    by_cases passed : v = .passed
    · rw [passed, exitOf_cons_passed, ih]
      simp
    · rw [exitOf_cons_failed passed, Verdict.exit_eq_zero]
      simp [passed]

theorem settings_step (files : Files) (name : Option String) (vs : List Verdict) :
    match files.config name with
    | .ok _ => exitOf ((name.map files.settingsVerdict).toList ++ vs) = exitOf vs
    | .error e =>
      exitOf ((name.map files.settingsVerdict).toList ++ vs) = (Outcome.failed e).exit := by
  cases name with
  | none => rfl
  | some name =>
    have follows := config_follows files name
    change match files.config (some name) with
      | .ok _ => exitOf (files.settingsVerdict name :: vs) = exitOf vs
      | .error e => exitOf (files.settingsVerdict name :: vs) = (Outcome.failed e).exit
    cases step : files.config (some name) with
    | ok c =>
      rw [step] at follows
      rw [show files.settingsVerdict name = .passed from follows]
      exact exitOf_cons_passed vs
    | error e =>
      rw [step] at follows
      exact (exitOf_cons_failed follows.1 vs).trans follows.2.symm

def printed (c : Config) (m : Machine) : Command → String
  | .available _ json =>
    if json then listText (c.available m)
    else if (c.available m).isEmpty then noRows else Table.render (c.available m)
  | .classify _ => listText (m.devices.map c.report)
  | .schema => Schema.snapshot.value.pretty ++ "\n"

theorem output_of_snapshot {command : Command} {name : String}
    (reads : command.snapshot? = some name) (files : Files) (c : Config) :
    output files c command =
      match files.machine name with
      | .error e => .error e
      | .ok m => .ok (printed c m command) := by
  cases command with
  | available snapshot json =>
    cases reads
    rfl
  | classify snapshot =>
    cases reads
    rfl
  | schema => cases reads

theorem snapshot_step (files : Files) (c : Config) (command : Command) :
    match output files c command with
    | .ok _ => exitOf (command.snapshot?.map files.snapshotVerdict).toList = 0
    | .error e =>
      exitOf (command.snapshot?.map files.snapshotVerdict).toList = (Outcome.failed e).exit := by
  cases reads : command.snapshot? with
  | none =>
    cases command with
    | schema => rfl
    | _ => cases reads
  | some name =>
    have follows := machine_follows files name
    rw [output_of_snapshot reads]
    change match (match files.machine name with
        | .error e => .error e
        | .ok m => .ok (printed c m command) : Except Error String) with
      | .ok _ => exitOf [files.snapshotVerdict name] = 0
      | .error e => exitOf [files.snapshotVerdict name] = (Outcome.failed e).exit
    cases step : files.machine name with
    | ok m =>
      rw [step] at follows
      rw [show files.snapshotVerdict name = .passed from follows]
      rfl
    | error e =>
      rw [step] at follows
      exact (exitOf_cons_failed follows.1 []).trans follows.2.symm

theorem run_exit (files : Files) (args : Arguments) :
    (run files args).exit = exitOf (files.verdicts args) := by
  have settings := settings_step files args.config
    (args.command.snapshot?.map files.snapshotVerdict).toList
  unfold run Files.verdicts
  cases config : files.config args.config with
  | error e =>
    rw [config] at settings
    exact settings.symm
  | ok c =>
    rw [config] at settings
    have snapshot := snapshot_step files c args.command
    dsimp only at settings ⊢
    rw [settings]
    cases printed : output files c args.command with
    | error e =>
      rw [printed] at snapshot
      exact snapshot.symm
    | ok text =>
      rw [printed] at snapshot
      exact snapshot.symm

theorem run_stdout {files : Files} {args : Arguments} (failed : (run files args).exit ≠ 0) :
    (run files args).stdout = "" := by
  unfold run at failed ⊢
  split
  · rfl
  · rename_i c config
    simp only [config] at failed
    split
    · rfl
    · rename_i text printed
      simp only [printed] at failed
      exact absurd rfl failed

/-- Snapshots that tell the same but for the status code. -/
def SameButStatus (m m' : Machine) : Prop := { m with statusCode := m'.statusCode } = m'

theorem printed_status {m m' : Machine} (same : SameButStatus m m') (c : Config)
    (command : Command) : printed c m command = printed c m' command := by
  rw [← same]
  cases command <;> rfl

theorem config_congr {files files' : Files} {name : Option String}
    (same : ∀ file ∈ name, files'.bytes file = files.bytes file) :
    files'.config name = files.config name := by
  cases name with
  | none => rfl
  | some file =>
    dsimp only [Files.config]
    rw [same file rfl]

theorem output_status {files files' : Files} {command : Command}
    (same : ∀ name ∈ command.snapshot?, ∃ m m', files.machine name = .ok m ∧
      files'.machine name = .ok m' ∧ SameButStatus m m') (c : Config) :
    output files' c command = output files c command := by
  cases reads : command.snapshot? with
  | none =>
    cases command with
    | schema => rfl
    | _ => cases reads
  | some name =>
    obtain ⟨m, m', read, read', alike⟩ := same name reads
    rw [output_of_snapshot reads, output_of_snapshot reads, read, read']
    exact congrArg Except.ok (printed_status alike c command).symm

theorem invoke_eq_run {env : Environment} {words : List String} {args : Arguments}
    (wellFormed : Arguments.read env words = .ok args) (files : Files) :
    invoke files env words = run files args := by
  unfold invoke
  rw [wellFormed]

/-- A run ends with 0 if every file that it reads passes, and otherwise as the first one that does
not pass decides, without a word on the standard output. The status code in a snapshot has no part
in it. -/
theorem invoke_outcome {env : Environment} {words : List String} {args : Arguments}
    (wellFormed : Arguments.read env words = .ok args) (files : Files) :
    ((invoke files env words).exit = 0 ↔ ∀ v ∈ files.verdicts args, v = .passed) ∧
    (∀ v, (files.verdicts args).find? (· ≠ .passed) = some v →
      (invoke files env words).exit = v.exit) ∧
    ((invoke files env words).exit ≠ 0 → (invoke files env words).stdout = "") ∧
    ∀ files' : Files, (∀ name ∈ args.config, files'.bytes name = files.bytes name) →
      (∀ name ∈ args.command.snapshot?, ∃ m m', files.machine name = .ok m ∧
        files'.machine name = .ok m' ∧ SameButStatus m m') →
      invoke files' env words = invoke files env words := by
  simp only [invoke_eq_run wellFormed]
  refine ⟨?_, ?_, run_stdout, ?_⟩
  · rw [run_exit, exitOf_eq_zero]
  · intro v first
    rw [run_exit, exitOf, first]
    rfl
  · intro files' settings snapshot
    unfold run
    simp only [config_congr settings, output_status snapshot]

/-- Settings that are missing decide, although the snapshot would be refused too. -/
theorem invoke_missing_settings :
    let words := ["--config", "settings.yaml", "classify", "-"]
    let files : Files := ⟨fun _ => none, "\x7b".toUTF8⟩
    Arguments.read ⟨none, none, none⟩ words =
        .ok ⟨some "settings.yaml", "warn", false, .classify "-"⟩ ∧
      (invoke files ⟨none, none, none⟩ words).exit = 1 ∧
      (invoke files ⟨none, none, none⟩ words).stdout = "" := by
  intro words files
  have wellFormed : Arguments.read ⟨none, none, none⟩ words =
      .ok ⟨some "settings.yaml", "warn", false, .classify "-"⟩ := by
    simp [words, Arguments.read, Options.read, Options.none, Options.setConfig, Command.read,
      Operands.read, isValue, isFlag, attached?, Environment.flag, bind, Except.bind, pure,
      Except.pure]
  have outcome := invoke_outcome wellFormed files
  have exit := outcome.2.1 .unreadable rfl
  exact ⟨wellFormed, exit, outcome.2.2.1 (by rw [exit]; decide)⟩

end Spindle.Cli
