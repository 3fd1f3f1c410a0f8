import Spindle.Cli.Arguments
import Spindle.Cli.Table

/-!
# Help

A page of help tells what the program or a command does, how it is used, and what its commands,
arguments and options are. They are listed in two columns. An option for which an environment
variable stands in shows the value of the variable.
-/

namespace Spindle.Cli

/-- What is listed under one title, each entry with its explanation. -/
structure Listing where
  title : String
  entries : List (String × String)

structure Page where
  about : String
  /-- The words behind the name of the program. -/
  usage : String
  listings : List Listing

/-! ### Layout -/

namespace Listing

/-- The width of the first column, which is that of its longest entry. -/
def width (l : Listing) : Nat := (l.entries.map fun entry => entry.1.length).foldr max 0

/-- The lines of a text but for the first one start in the given column. -/
def hang (column : Nat) (text : String) : String :=
  String.ofList (text.toList.flatMap fun c =>
    if c = '\n' then c :: List.replicate column ' ' else [c])

/-- Two spaces stand before each column. -/
def row (width : Nat) (entry : String × String) : String :=
  "  " ++ Table.pad width entry.1 ++ "  " ++ hang (width + 4) entry.2 ++ "\n"

def render (l : Listing) : String :=
  "\n" ++ l.title ++ ":\n" ++ String.join (l.entries.map (row l.width))

end Listing

def Page.render (p : Page) : String :=
  p.about ++ "\n\nUsage: machine-storage " ++ p.usage ++ "\n" ++
    String.join (p.listings.map Listing.render)

/-! ### Pages -/

namespace Topic

def about : Topic → String
  | program => "Storage topology classification for bare-metal and VM machine inventories"
  | available => "List disks and partitions that are free to use, with their actions"
  | classify => "Print a classification report for every disk and partition"
  | schema => "Print the JSON schema of a machine snapshot"
  | help => "Print this message or the help of the given subcommand(s)"

def commandList : Listing := ⟨"Commands", commands.map fun (name, topic) => (name, topic.about)⟩

def snapshotList : Listing := ⟨"Arguments", [("<SNAPSHOT>", "Machine snapshot, `-` for stdin")]⟩

def helpFlag : String × String := ("-h, --help", "Print help")

/-- An option without a letter leaves the place of the letter blank. -/
def wordOnly (option : String) : String := "    " ++ option

/-- The variable that stands in for an option, with its value. -/
def fromVariable (name : String) (value : Option String) : String :=
  "[env: " ++ name ++ "=" ++ value.getD "" ++ "]"

def page (env : Environment) : Topic → Page
  | program => ⟨about program, "[OPTIONS] <COMMAND>", [commandList, ⟨"Options", [
      (wordOnly "--config <CONFIG>",
        "Classifier configuration file (YAML) " ++ fromVariable "CLASSIFIER_CONFIG" env.config),
      (wordOnly "--log-level <LOG_LEVEL>",
        "Log level (trace, debug, info, warn, error) " ++ fromVariable "LOG_LEVEL" env.logLevel ++
          " [default: warn]"),
      (wordOnly "--log-json", "Output logs as JSON " ++ fromVariable "LOG_JSON" env.logJson),
      helpFlag,
      ("-V, --version", "Print version")]⟩]⟩
  | available => ⟨about available, "available [OPTIONS] <SNAPSHOT>", [snapshotList, ⟨"Options", [
      (wordOnly "--json", "Print rows as JSON instead of a table"),
      helpFlag]⟩]⟩
  | classify =>
    ⟨about classify, "classify <SNAPSHOT>", [snapshotList, ⟨"Options", [helpFlag]⟩]⟩
  | schema => ⟨about schema, "schema", [⟨"Options", [helpFlag]⟩]⟩
  | help => ⟨about help, "help [COMMAND]...", [
      ⟨"Arguments", [("[COMMAND]...", "Print help for the subcommand(s)")]⟩]⟩

end Topic

end Spindle.Cli
