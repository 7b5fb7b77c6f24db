import RowQuery.Number.Decimal

/-!
# The arguments of the command line

The program runs one query over the names of a JSON file. The arguments say where the query and
the names come from and how the results are printed; this module reads them.
-/

set_option autoImplicit false

namespace RowQuery
namespace CommandLine

/-- What the arguments ask for. -/
structure Arguments where
  query : Option String := none
  file : Option String := none
  context : Option String := none
  workerThreads : Option Nat := none
  pretty : Bool := false

/-- Why the arguments lead to no run. -/
inductive Refusal where
  /-- The help was asked for. -/
  | help
  | usage

/-- The options that take a value. -/
inductive ValueOption where
  | file | context | workerThreads

/-- A number of threads: digits, after a plus sign if one is given, that fit 64 bits. -/
def threads? (text : String) : Option Nat :=
  let digits := match text.toList with
    | '+' :: rest => rest
    | cs => cs
  if digits.isEmpty || !digits.all Char.isDigit || UInt64.size ≤ digitsValue digits then none
  else some (digitsValue digits)

/-- Take the value of an option. An option is given at most once, and a file has a name. -/
def Arguments.setValue (a : Arguments) (option : ValueOption) (value : String) :
    Except Refusal Arguments :=
  match option with
  | .file =>
    if a.file.isSome || value.isEmpty then .error .usage else .ok { a with file := some value }
  | .context =>
    if a.context.isSome || value.isEmpty then .error .usage
    else .ok { a with context := some value }
  | .workerThreads =>
    match a.workerThreads, threads? value with
    | none, some n => .ok { a with workerThreads := some n }
    | _, _ => .error .usage

def Arguments.setQuery (a : Arguments) (text : String) : Except Refusal Arguments :=
  if a.query.isSome then .error .usage else .ok { a with query := some text }

/-- What one argument is by its form. -/
inductive Form where
  /-- `--`: no options follow. -/
  | separator
  | long (name : List Char) (value : Option (List Char))
  | short (letters : List Char)
  | plain

/-- The form of an argument. A dash alone is plain. -/
def form (arg : List Char) : Form :=
  match arg with
  | ['-', '-'] => .separator
  | '-' :: '-' :: rest =>
    let name := rest.takeWhile (· != '=')
    .long name (if name.length = rest.length then none else some (rest.drop (name.length + 1)))
  | '-' :: c :: rest => .short (c :: rest)
  | _ => .plain

def valueOption? (name : String) : Option ValueOption :=
  match name with
  | "file" => some .file
  | "context" => some .context
  | "worker-threads" => some .workerThreads
  | _ => none

/-- The value that stands in the argument of a short option itself, after `=` if there is one. -/
def attached? (letters : List Char) : Option (List Char) :=
  match letters with
  | [] => none
  | '=' :: value => some value
  | value => some value

/-- Read the arguments from here on, where an option may still wait for its value. -/
def parseFrom (a : Arguments) : Option ValueOption → List String → Except Refusal Arguments
  | none, [] => .ok a
  | some _, [] => .error .usage
  | some option, arg :: rest =>
    match form arg.toList with
    | .plain => do parseFrom (← a.setValue option arg) none rest
    | _ => .error .usage
  | none, arg :: rest =>
    let withValue (option : ValueOption) (attached : Option (List Char)) :
        Except Refusal Arguments :=
      match attached with
      | some value => do parseFrom (← a.setValue option (String.ofList value)) none rest
      | none => parseFrom a (some option) rest
    match form arg.toList with
    | .plain => do parseFrom (← a.setQuery arg) none rest
    | .separator => rest.foldlM Arguments.setQuery a
    | .long name value =>
      let name := String.ofList name
      match valueOption? name, value with
      | some option, value => withValue option value
      | none, none =>
        if name = "help" then .error .help
        else if name = "pretty" && !a.pretty then parseFrom { a with pretty := true } none rest
        else .error .usage
      | none, some _ => .error .usage
    | .short letters =>
      match letters with
      | 'f' :: value => withValue .file (attached? value)
      | 'c' :: value => withValue .context (attached? value)
      | 'h' :: _ => .error .help
      | _ => .error .usage

/-- The arguments, with the context file that the environment names when they name none. A query
and a query file exclude each other. -/
def parse (args : List String) (contextVariable : Option String) : Except Refusal Arguments := do
  let a ← parseFrom {} none args
  let a ← match a.context, contextVariable with
    | none, some path => a.setValue .context path
    | _, _ => .ok a
  if a.query.isSome && a.file.isSome then .error .usage
  else .ok a

/-- Whether the query comes from standard input. -/
def Arguments.readsInput (a : Arguments) : Bool := a.query.isNone && a.file.isNone

def Arguments.files (a : Arguments) : List String := a.file.toList ++ a.context.toList

end CommandLine
end RowQuery
