import Mathlib.Data.List.MinMax
import Spindle.Cli.Run
import Spindle.Proofs.Cli.Columns

/-!
# Help

The page of a command is the same in both ways of asking for it. In a listing all explanations start
in the same column.
-/

namespace Spindle.Cli

/-! ### Asking for help -/

theorem Operands.read_help {flag : String} (asks : isFlag 'h' "help" flag) (command : Topic)
    (takesSnapshot takesJson : Bool) (o : Operands) (rest : List String) :
    Operands.read command takesSnapshot takesJson o false (flag :: rest) =
      .error (.helpWanted command) := by
  have notEscape : flag ≠ "--" := by
    intro escape
    rw [escape] at asks
    exact absurd asks (by decide)
  simp [Operands.read, notEscape, asks]

section
variable {name : String} {topic : Topic}

theorem Command.read_help (listed : (name, topic) ∈ Topic.commands) {flag : String}
    (asks : isFlag 'h' "help" flag) (notHelp : topic ≠ .help) (rest : List String) :
    Command.read name (flag :: rest) = .error (.helpWanted topic) := by
  simp only [Topic.commands, List.mem_cons, List.not_mem_nil, or_false, Prod.mk.injEq] at listed
  obtain ⟨rfl, rfl⟩ | ⟨rfl, rfl⟩ | ⟨rfl, rfl⟩ | ⟨-, rfl⟩ := listed
  · simp [Command.read, Operands.read_help asks]
  · simp [Command.read, Operands.read_help asks]
  · simp [Command.read, Operands.read_help asks]
  · exact absurd rfl notHelp

theorem Command.topic?_listed (listed : (name, topic) ∈ Topic.commands) :
    Command.topic? [name] = some topic := by
  have found : ∀ command ∈ Topic.commands, Topic.commands.lookup command.1 = some command.2 := by
    decide
  exact found _ listed

/-- No name of a command is taken for an option. -/
theorem Options.read_command (listed : (name, topic) ∈ Topic.commands) (o : Options)
    (args : List String) : o.read (name :: args) = .ok (o, name, args) := by
  have plain : ∀ command ∈ Topic.commands, isFlag 'h' "help" command.1 = false ∧
      isFlag 'V' "version" command.1 = false ∧
      command.1 ∉ ["--log-json", "--config", "--log-level"] ∧
      attached? "--config" command.1 = .none ∧ attached? "--log-level" command.1 = .none := by
    decide
  obtain ⟨help, version, option, config, logLevel⟩ := plain _ listed
  simp only [List.mem_cons, List.not_mem_nil, or_false, not_or] at option
  unfold Options.read
  simp [help, version, option, config, logLevel]

/-- Both ways print the page, whatever files there are and whatever follows the flag. Help itself is
asked about in the first way only. -/
theorem invoke_help (listed : (name, topic) ∈ Topic.commands) (files : Files) (env : Environment) :
    invoke files env ["help", name] = .done (topic.page env).render ∧
      ∀ flag rest, isFlag 'h' "help" flag → topic ≠ .help →
        invoke files env (name :: flag :: rest) = .done (topic.page env).render := by
  constructor
  · have help : Options.read .none ["help", name] = .ok (.none, "help", [name]) :=
      @Options.read_command "help" .help (by decide) _ _
    simp [invoke, Arguments.read, help, Command.read, Command.topic?_listed listed, bind,
      Except.bind]
  · intro flag rest asks notHelp
    simp only [invoke, Arguments.read, Options.read_command listed,
      Command.read_help listed asks notHelp, bind, Except.bind]

example (files : Files) (env : Environment) : (invoke files env ["help", "schema"]).stdout =
    "Print the JSON schema of a machine snapshot\n\nUsage: machine-storage schema\n\n" ++
      "Options:\n  -h, --help  Print help\n" := by
  rfl

end

/-! ### Columns of a listing -/

namespace Listing

variable {l : Listing} {entry : String × String}

theorem length_le_width (listed : entry ∈ l.entries) : entry.1.length ≤ l.width :=
  List.le_max_of_le (List.mem_map_of_mem listed) (Nat.le_refl _)

theorem explanation_column (listed : entry ∈ l.entries) :
    (row l.width entry).toList.drop (l.width + 4) =
      (hang (l.width + 4) entry.2).toList ++ ['\n'] := by
  have before : ("  ".toList ++ (Table.pad l.width entry.1).toList ++ "  ".toList).length =
      l.width + 4 := by
    rw [List.length_append, List.length_append, Table.length_pad (length_le_width listed)]
    show 2 + l.width + 2 = l.width + 4
    omega
  unfold row
  simp only [String.toList_append]
  rw [List.append_assoc]
  exact List.drop_left' before

end Listing

end Spindle.Cli
