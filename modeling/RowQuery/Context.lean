import RowQuery.Json.Reader
import RowQuery.Value.Document
import RowQuery.World

/-!
# `Context` — the names a query may use

A context is a stack of layers. Each layer has values of its own and may have a
loader that is asked for the names it has no value for. What a loader answered is remembered, an
unknown name included, so it is asked for a name once; a loader that breaks down has not answered
and is asked again.
-/

set_option autoImplicit false

namespace RowQuery

inductive LoadReply where
  | found (v : Value)
  | unknown
  | panicked

/-- A source of values by name. -/
structure Loader where
  /-- What it has answered is remembered under this number. -/
  id : Nat
  /-- The answer for a name, given every load made before. -/
  resolve : (earlier : List Load) → (name : String) → LoadReply

structure Layer where
  values : Fields Value := .empty
  loader : Option Loader := none

/-- A layer and the layers around it, the nearest first. -/
structure Context where
  innermost : Layer := {}
  outer : List Layer := []

namespace Context

def empty : Context := {}

/-- All layers, innermost first. -/
def layers (c : Context) : List Layer := c.innermost :: c.outer

def push (c : Context) (layer : Layer) : Context := ⟨layer, c.layers⟩

/-- The context where `name` means `value` and every other name what it meant. -/
def bind (c : Context) (name : String) (value : Value) : Context :=
  c.push { values := Fields.empty.insert name value }

/-- What the loader says of a name, asking it only if it has not answered before. -/
def load (loader : Loader) (name : String) : Evaluation (Option Value) := do
  let world ← get
  let request : Load := ⟨loader.id, name⟩
  match world.loaded.lookup request with
  | some answer => return answer
  | none =>
    let reply := loader.resolve world.loads name
    set { world with loads := world.loads ++ [request] }
    match reply with
    | .panicked => throw .loaderPanic
    | .found v => remember request (some v)
    | .unknown => remember request none
where
  remember (request : Load) (answer : Option Value) : Evaluation (Option Value) := do
    modify fun world => { world with loaded := (request, answer) :: world.loaded }
    return answer

/-- What a name means in these layers: the first layer that knows it decides, its own values
before its loader. -/
def getFrom (name : String) : List Layer → Evaluation (Option Value)
  | [] => return none
  | layer :: outer => do
    match layer.values.get? name with
    | some v => return some v
    | none =>
      match layer.loader with
      | none => getFrom name outer
      | some loader =>
        match ← load loader name with
        | some v => return some v
        | none => getFrom name outer

/-- What a name means; a name that means null is known. -/
def get? (c : Context) (name : String) : Evaluation (Option Value) := getFrom name c.layers

def contains (c : Context) (name : String) : Evaluation Bool := return (← c.get? name).isSome

/-- The context whose names are the members of a JSON object. -/
def ofJson : Json → Except Fault Context
  | .object members => .ok { innermost := { values := .ofList (Value.ofJsonMembers members) } }
  | j => .error (.invalidPayload (.contextNotObject (Value.ofJson j).kind))

def ofJsonText (text : String) : Except Fault Context :=
  match Json.parse? text with
  | some j => ofJson j
  | none => .error .notJson

/-- The innermost layer, its names in ascending order. -/
def inspect (c : Context) : String :=
  let flag (b : Bool) : String := if b then "true" else "false"
  let names := c.innermost.values.names.mergeSort (· ≤ ·)
  "Context \x7b values: [" ++ ", ".intercalate (names.map quote)
    ++ "], has_loader: " ++ flag c.innermost.loader.isSome
    ++ ", has_parent: " ++ flag (!c.outer.isEmpty) ++ " \x7d"

end Context
end RowQuery
