import RowQuery.Text.ControlSequence

/-!
# The help of the command line

The help is laid out for a terminal, with the names of options standing out. Written anywhere
else it is the same text without control sequences.
-/

set_option autoImplicit false

namespace RowQuery
namespace CommandLine

def emphasized (words : String) : String := "\x1b[1m" ++ words ++ "\x1b[0m"

/-- A text whose first line is indented already: its other lines get the same ten blanks. -/
def indentRest (text : String) : String :=
  String.ofList (text.toList.flatMap fun c =>
    if c = '\n' then c :: List.replicate 10 ' ' else [c])

/-- An option in the help: its names and value, and below them what it is for. -/
def helpEntry (short : Option String) (long : String) (value : Option String) (purpose : String) :
    String :=
  let shortName := match short with
    | some letter => emphasized ("-" ++ letter) ++ ", "
    | none => "    "
  let valueName := match value with
    | some name => " <" ++ name ++ ">"
    | none => ""
  "  " ++ shortName ++ emphasized ("--" ++ long) ++ valueName
    ++ "\n          " ++ indentRest purpose ++ "\n"

/-- The help for a terminal. It shows which context file the environment names. -/
def terminalHelp (contextVariable : Option String) : String :=
  "Run MQL queries over JSON data\n\n"
    ++ emphasized "Usage:" ++ " " ++ emphasized "mql" ++ " [OPTIONS] [QUERY]\n\n"
    ++ emphasized "Arguments:"
    ++ "\n  [QUERY]  Query text (read from stdin when neither QUERY nor --file is given)\n\n"
    ++ emphasized "Options:" ++ "\n"
    ++ helpEntry (some "f") "file" (some "FILE") "Read the query from a file"
    ++ helpEntry (some "c") "context" (some "CONTEXT")
      ("JSON object whose top-level keys become context variables [env: MQL_CONTEXT="
        ++ contextVariable.getD "" ++ "]")
    ++ helpEntry none "worker-threads" (some "WORKER_THREADS") "Threads in the async join pool"
    ++ helpEntry none "pretty" none "Pretty-print the JSON output"
    ++ helpEntry (some "h") "help" none "Print help"

/-- The help as it is written to a file or pipe: what would steer a terminal is left out, in the
name of the context file too. -/
def helpText (contextVariable : Option String) : String :=
  withoutControls (terminalHelp contextVariable)

end CommandLine
end RowQuery
