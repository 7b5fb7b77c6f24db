import RowQuery.CommandLine.Run

/-!
# The program

Reads what the arguments call for, runs the query and prints the outcome.
-/

set_option autoImplicit false

open RowQuery.CommandLine

/-- The contents of a file, or why it cannot be read. -/
def fileContents (path : String) : IO (String × Except String String) := do
  try return (path, .ok (← IO.FS.readFile path))
  catch e => return (path, .error (toString e))

def main (args : List String) : IO UInt32 := do
  let contextVariable ← IO.getEnv "MQL_CONTEXT"
  let response ← match parse args contextVariable with
    | .error refusal => pure (refusal.response contextVariable)
    | .ok a => do
      let files ← a.files.mapM fileContents
      let input ← if a.readsInput then (← IO.getStdin).readToEnd else pure ""
      let contents (path : String) := (files.lookup path).getD (.error "the file was not read")
      pure (run a contents input)
  (← IO.getStdout).putStr response.output
  (← IO.getStderr).putStr response.error
  return response.exitCode.toUInt32
