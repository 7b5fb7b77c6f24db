import RowQuery.CommandLine.Arguments
import RowQuery.CommandLine.Help
import RowQuery.Engine

/-!
# One run of the command line

What is printed and with which exit code, given the arguments and the contents of the files they
name. Nothing here touches the system.
-/

set_option autoImplicit false

namespace RowQuery
namespace CommandLine

/-- What a run leaves on the outside. -/
structure Response where
  exitCode : UInt8
  output : String := ""
  error : String := ""

/-- A run that failed, with the reason behind the failure if there is another. -/
def failure (message : String) (reason : Option String := none) : Response where
  exitCode := 1
  error := "Error: " ++ message ++ "\n" ++
    match reason with
    | none => ""
    | some reason => "\nCaused by:\n    " ++ reason ++ "\n"

def render (pretty : Bool) (results : List Object) : String :=
  let document := (Value.array (results.map .object)).toOrderedJson
  (if pretty then document.pretty else document.compact) ++ "\n"

/-- A run with these arguments, given the contents of files (or why they cannot be read) and the
standard input. -/
def run (a : Arguments) (contents : String → Except String String) (input : String) : Response :=
  let text : Except Response String :=
    match a.query, a.file with
    | some query, _ => .ok query
    | none, some path =>
      (contents path).mapError fun reason => failure ("reading query file " ++ path) (some reason)
    | none, none => .ok input
  let context : Except Response Context :=
    match a.context with
    | none => .ok .empty
    | some path =>
      (((contents path).mapError Fault.file).bind Context.ofJsonText).mapError fun fault =>
        failure ("loading context " ++ path) (some fault.message)
  match text, context with
  | .error response, _ => response
  | .ok _, .error response => response
  | .ok text, .ok context =>
    -- the names of a file hold no capabilities, so no operation is ever found
    let env : Environment := { host := { capability := fun _ =>
      ⟨fun _ _ => false, fun _ _ _ => .failed ""⟩ } }
    match ((Query.executeText env context text).run.run {}).1 with
    | .ok results => { exitCode := 0, output := render a.pretty results }
    | .error (.error e) => failure e.message
    | .error .loaderPanic => failure "a loader broke down"

def Refusal.response (contextVariable : Option String) : Refusal → Response
  | .help => { exitCode := 0, output := helpText contextVariable }
  | .usage => { exitCode := 2, error := "error: the arguments are not understood\n" }

end CommandLine
end RowQuery
