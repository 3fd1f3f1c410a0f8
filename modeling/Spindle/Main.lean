import Spindle.Cli.Run

/-! The program: reads the files that its arguments name and prints the outcome of the run. -/

open Spindle

def fileBytes (name : String) : IO (Option ByteArray) :=
  try
    return some (← IO.FS.readBinFile name)
  catch _ => return none

def main (args : List String) : IO UInt32 := do
  let env : Cli.Environment := {
    config := ← IO.getEnv "CLASSIFIER_CONFIG"
    logLevel := ← IO.getEnv "LOG_LEVEL"
    logJson := ← IO.getEnv "LOG_JSON" }
  let outcome ← match Cli.Arguments.read env args with
    | .error _ => pure (Cli.invoke ⟨fun _ => none, .empty⟩ env args)
    | .ok arguments => do
      let config ← arguments.config.mapM fun name => do return (name, ← fileBytes name)
      let snapshot := match arguments.command with
        | .available name _ | .classify name => some name
        | .schema => none
      let file ← (snapshot.filter (!Cli.isDash ·)).mapM fun name => do return (name, ← fileBytes name)
      let input ← if snapshot.any Cli.isDash then (← IO.getStdin).readBinToEnd else pure .empty
      let known := config.toList ++ file.toList
      pure (Cli.run ⟨fun name => (known.lookup name).join, input⟩ arguments)
  (← IO.getStdout).putStr outcome.stdout
  return outcome.exit.toUInt32
