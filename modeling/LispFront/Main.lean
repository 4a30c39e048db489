import LispFront.CommandLine.Command

/-!
# The executable

Reads the environment and the program, and writes what a run of the command leaves.
-/

open LispFront.CommandLine

/-- Why a file cannot be read, in words. -/
def readFailure : IO.Error → String
  | .noFileOrDirectory .. => "No such file or directory (os error 2)"
  | e => toString e

/-- Writes the outcome of a run. -/
def report (outcome : Outcome) : IO UInt32 := do
  (← IO.getStdout).putStr outcome.output
  (← IO.getStderr).putStr outcome.errors
  return outcome.exitCode

/-- Runs the command on its arguments. -/
def main (arguments : List String) : IO UInt32 := do
  let names := ["ELLC_WIDTH", "TERM", "NO_COLOR"]
  let settings ← names.mapM fun name => return (name, ← IO.getEnv name)
  let environment := fun name => (settings.lookup name).join
  match request environment arguments with
  | .error outcome => report outcome
  | .ok options =>
    let source ← try
        match options.file with
        | some file => Except.ok <$> IO.FS.readFile file
        | none => Except.ok <$> (← IO.getStdin).readToEnd
      catch e => pure (Except.error (readFailure e))
    report (runSource environment options source)
