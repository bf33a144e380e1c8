import ZeroSet.Command.Run
import ZeroSet.Scalar.Binary64

/-!
# The program

Reads the files a command asks for, runs it and prints its report.
-/

open ZeroSet

/-- The content of a file, or why there is none. -/
def readInput (path : String) : IO (Except String String) := do
  try
    return .ok (← IO.FS.readFile path)
  catch e =>
    match e with
    | .noFileOrDirectory .. => return .error "No such file or directory (os error 2)"
    | e => return .error (toString e)

/-- Runs a command line. -/
def main (args : List String) : IO UInt32 := do
  let report ←
    match (Command.parse args : Option (Command Float)) with
    | none => pure Report.usageError
    | some command => do
      let contents ← command.inputs.mapM fun path => do
        return (path, ← readInput path)
      let files : Files :=
        ⟨fun path => (contents.lookup path).getD (.error "not a file of this command")⟩
      pure (command.run files)
  IO.print report.output
  IO.eprint report.errors
  return report.code.toUInt32
