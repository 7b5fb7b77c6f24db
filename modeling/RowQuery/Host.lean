import RowQuery.Value.Text

/-!
# `Host` — the objects behind capabilities

A capability says which operations it has, by name and number of arguments, and answers calls of
them. What it says and answers may depend on every call the host has been made before, which is what
a stateful host amounts to; a host is *pure* when it does not.
-/

set_option autoImplicit false

namespace RowQuery

/-- One call of a host operation. -/
structure Invocation where
  target : Handle
  operation : String
  arguments : List Value

namespace Invocation

def text (i : Invocation) : String :=
  i.target.typeName ++ "." ++ i.operation ++ "("
    ++ ", ".intercalate (i.arguments.map Value.text) ++ ")"

end Invocation

inductive Reply where
  | returned (v : Value)
  | failed (message : String)
  /-- The operation broke down instead of failing, with a text or with something else. -/
  | panicked (text : Option String)
deriving Inhabited

namespace Reply

def result : Reply → Except String Value
  | .returned v => .ok v
  | .failed message => .error message
  | .panicked text => .error ("panicked: " ++ text.getD "operation panicked")

end Reply

/-- What the host answers for one capability. -/
structure Capability where
  /-- Whether there is an operation of this name and number of arguments, before any call. -/
  has : String → Nat → Bool
  /-- The answer of an operation, given the calls made before. -/
  invoke : (earlier : List Invocation) → String → List Value → Reply

/-- The host: what stands behind each handle. -/
structure Host where
  capability : Handle → Capability
  /-- Whether a capability has the operation, given the calls made before. As a rule operations
  neither come nor go. -/
  offers : (earlier : List Invocation) → Handle → String → Nat → Bool :=
    fun _ handle => (capability handle).has
  offers_nil : ∀ handle, offers [] handle = (capability handle).has := by exact fun _ => rfl

/-- Neither the operations nor their answers depend on earlier calls. -/
structure Host.IsPure (host : Host) : Prop where
  offers : ∀ earlier handle, host.offers earlier handle = host.offers [] handle
  answers : ∀ handle earlier operation arguments,
    (host.capability handle).invoke earlier operation arguments
      = (host.capability handle).invoke [] operation arguments

/-! ## Registries -/

abbrev Operation := (earlier : List Invocation) → (arguments : List Value) → Reply

/-- A capability put together from operations, each under a name and a number of arguments. -/
structure Registry where
  typeName : String
  operations : List ((String × Nat) × Operation) := []

namespace Registry

/-- Register an operation, in the place of one of the same name and arity. -/
def register (r : Registry) (name : String) (arity : Nat) (op : Operation) : Registry :=
  { r with operations := ((name, arity), op) :: r.operations.filter (·.1 != (name, arity)) }

def find? (r : Registry) (name : String) (arity : Nat) : Option Operation :=
  r.operations.lookup (name, arity)

def size (r : Registry) : Nat := r.operations.length

/-- A call of an operation; one that is not registered fails. -/
def invoke (r : Registry) (earlier : List Invocation) (name : String) (arguments : List Value) :
    Reply :=
  match r.find? name arguments.length with
  | some op => op earlier arguments
  | none => .failed (name ++ "/" ++ toString arguments.length ++ " is not registered")

def toCapability (r : Registry) : Capability where
  has name arity := (r.find? name arity).isSome
  invoke := r.invoke

/-- The registry with the names and arities of its operations in ascending order. -/
def inspect (r : Registry) : String :=
  let names := r.operations.map fun ((name, arity), _) => name ++ "/" ++ toString arity
  "OperationRegistry \x7b type_name: " ++ quote r.typeName ++ ", operations: ["
    ++ ", ".intercalate ((names.mergeSort (· ≤ ·)).map quote) ++ "] \x7d"

end Registry
end RowQuery
