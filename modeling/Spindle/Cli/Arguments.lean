/-!
# Command line

`[--config FILE] [--log-level LEVEL] [--log-json] COMMAND`, where the command is
`available FILE [--json]`, `classify FILE` or `schema`. Options of the program stand before the
command. An environment variable stands in for an option that is not given. `help COMMAND` and
`COMMAND --help` ask for help on a command, `help` and `--help` for help on the program.
-/

namespace Spindle.Cli

inductive Command where
  | available (snapshot : String) (json : Bool)
  | classify (snapshot : String)
  | schema
  deriving DecidableEq, Repr

structure Arguments where
  config : Option String
  logLevel : String
  logJson : Bool
  command : Command
  deriving DecidableEq, Repr

/-- What help is about: the program or one of its commands, of which help itself is one. -/
inductive Topic where
  | program
  | available
  | classify
  | schema
  | help
  deriving DecidableEq, Repr

/-- The commands by their names. -/
def Topic.commands : List (String × Topic) :=
  [("available", .available), ("classify", .classify), ("schema", .schema), ("help", .help)]

/-- Why a command line does not lead to a run. -/
inductive Stop where
  | wrongUsage
  | helpWanted (topic : Topic)
  | versionWanted
  deriving DecidableEq, Repr

structure Options where
  config : Option String
  logLevel : Option String
  logJson : Bool
  deriving DecidableEq, Repr

/-- A dash alone is a value; anything else that starts with one is not, unless it is attached to
its option. -/
def isValue (arg : String) : Bool := !arg.startsWith "-" || arg = "-"

/-- A flag that ends the reading is given by its word, or by its letter with anything behind it. -/
def isFlag (letter : Char) (word arg : String) : Bool :=
  arg = "--" ++ word || ['-', letter].isPrefixOf arg.toList

def attached? (option arg : String) : Option String :=
  let lead := (option ++ "=").toList
  if lead.isPrefixOf arg.toList then some (String.ofList (arg.toList.drop lead.length)) else none

namespace Options

def none : Options := ⟨.none, .none, false⟩

/-- A file name is not empty, and no option is given twice. -/
def setConfig (o : Options) (value : String) : Except Stop Options :=
  if o.config.isSome ∨ value = "" then .error .wrongUsage
  else .ok { o with config := some value }

def setLogLevel (o : Options) (value : String) : Except Stop Options :=
  if o.logLevel.isSome then .error .wrongUsage else .ok { o with logLevel := some value }

/-- The options before the command; gives also the command's name and what follows it. -/
def read (o : Options) : List String → Except Stop (Options × String × List String)
  | [] => .error .wrongUsage
  | arg :: args =>
    if arg = "--log-json" then
      if o.logJson then .error .wrongUsage else read { o with logJson := true } args
    else if isFlag 'h' "help" arg then .error (.helpWanted .program)
    else if isFlag 'V' "version" arg then .error .versionWanted
    else
      match attached? "--config" arg, attached? "--log-level" arg with
      | some value, _ =>
        match o.setConfig value with
        | .error e => .error e
        | .ok o => read o args
      | .none, some value =>
        match o.setLogLevel value with
        | .error e => .error e
        | .ok o => read o args
      | .none, .none =>
        if arg = "--config" ∨ arg = "--log-level" then
          match args with
          | [] => .error .wrongUsage
          | value :: args =>
            if !isValue value then .error .wrongUsage
            else
              match if arg = "--config" then o.setConfig value else o.setLogLevel value with
              | .error e => .error e
              | .ok o => read o args
        else .ok (o, arg, args)

end Options

structure Operands where
  snapshot : Option String
  json : Bool
  deriving DecidableEq, Repr

namespace Operands

/-- The operands of a command; after `--` nothing is an option. -/
def read (command : Topic) (takesSnapshot takesJson : Bool) (o : Operands) (escaped : Bool) :
    List String → Except Stop Operands
  | [] => .ok o
  | arg :: args =>
    if !escaped && arg = "--" then read command takesSnapshot takesJson o true args
    else if !escaped && isFlag 'h' "help" arg then .error (.helpWanted command)
    else if !escaped && takesJson && !o.json && arg = "--json" then
      read command takesSnapshot takesJson { o with json := true } escaped args
    else if takesSnapshot && o.snapshot.isNone && arg ≠ "" && (escaped || isValue arg) then
      read command takesSnapshot takesJson { o with snapshot := some arg } escaped args
    else .error .wrongUsage

end Operands

namespace Command

/-- Help is on the program if nothing is named, and else on the one command that is. -/
def topic? : List String → Option Topic
  | [] => some .program
  | [name] => Topic.commands.lookup name
  | _ => none

def read (name : String) (args : List String) : Except Stop Command :=
  if name = "available" then
    match Operands.read .available true true ⟨none, false⟩ false args with
    | .error e => .error e
    | .ok ⟨none, _⟩ => .error .wrongUsage
    | .ok ⟨some snapshot, json⟩ => .ok (.available snapshot json)
  else if name = "classify" then
    match Operands.read .classify true false ⟨none, false⟩ false args with
    | .error e => .error e
    | .ok ⟨none, _⟩ => .error .wrongUsage
    | .ok ⟨some snapshot, _⟩ => .ok (.classify snapshot)
  else if name = "schema" then
    match Operands.read .schema false false ⟨none, false⟩ false args with
    | .error e => .error e
    | .ok _ => .ok .schema
  else if name = "help" then
    match topic? args with
    | none => .error .wrongUsage
    | some topic => .error (.helpWanted topic)
  else .error .wrongUsage

end Command

/-- Environment variables that stand in for options. -/
structure Environment where
  config : Option String
  logLevel : Option String
  logJson : Option String
  deriving DecidableEq, Repr

namespace Environment

def flag (value : Option String) : Except Stop Bool :=
  match value with
  | none => .ok false
  | some "true" => .ok true
  | some "false" => .ok false
  | some _ => .error .wrongUsage

end Environment

namespace Arguments

def read (env : Environment) (args : List String) : Except Stop Arguments := do
  let (options, name, args) ← Options.read .none args
  let command ← Command.read name args
  let config := options.config <|> env.config
  let logJson ← if options.logJson then pure true else Environment.flag env.logJson
  if config = some "" then throw .wrongUsage
  return {
    config
    logLevel := (options.logLevel <|> env.logLevel).getD "warn"
    logJson
    command }

end Arguments

end Spindle.Cli
