import RowQuery.Context
import RowQuery.Expr.Printer
import RowQuery.Query.Basic
import RowQuery.Row
import RowQuery.Text.Capital
import RowQuery.Value.Operators

/-!
# Evaluating expressions for one row

A name means what the row binds it to, else what the context says. Operands are evaluated from
left to right, and `and` and `or` leave the right side alone when the left decides. A property of
an object is a field, null if it has none; a property of a capability is an operation without
arguments, of that name or of the getter's.

Before a call its operation is looked up, and only then the arguments are evaluated.
-/

set_option autoImplicit false

namespace RowQuery

/-- What an expression can refer to. -/
structure Scope where
  host : Host
  context : Context
  row : Row

namespace Scope

/-- The name of the operation that gets a property: `totalTweets` is got by `getTotalTweets`. -/
def getterName (property : String) : String := "get" ++ capitalize property

def lookup (s : Scope) (name : String) : Evaluation Value := do
  match s.row.get? name with
  | some v => return v
  | none =>
    match ← s.context.get? name with
    | some v => return v
    | none => Run.fail (.unresolved (.undefined name))

/-- Whether the capability has the operation now. -/
def offers (s : Scope) (target : Handle) (operation : String) (arity : Nat) : Evaluation Bool :=
  return s.host.offers (← get).invocations target operation arity

/-- Call an operation of a capability. The call is recorded before the host acts, and an
operation that breaks down has failed like any other. -/
def invoke (s : Scope) (target : Handle) (operation : String) (arguments : List Value) :
    Evaluation Value := do
  let world ← get
  let reply := (s.host.capability target).invoke world.invocations operation arguments
  let call : Invocation := ⟨target, operation, arguments⟩
  set { world with invocations := world.invocations ++ [call] }
  match reply.result with
  | .ok v => return v
  | .error message => Run.fail (.invocation (.failed target.typeName operation message))

/-- A property of a value; `walked` is the text of what the value was read from. -/
def property (s : Scope) (v : Value) (name walked : String) : Evaluation Value :=
  match v with
  | .object fields => return (fields.get? name).getD .null
  | .capability target => do
    if ← s.offers target name 0 then s.invoke target name []
    else if ← s.offers target (getterName name) 0 then s.invoke target (getterName name) []
    else Run.fail (.unresolved (.noProperty target.typeName walked name))
  | v => Run.fail (.unresolved (.noProperty v.kind walked name))

/-- Read the properties one after another. `walked` is the text of the path up to `v`. An optional
property of null is null and so is everything after it; so is everything after an optional
property that turns out null. -/
def walk (s : Scope) (walked : String) (v : Value) : List Segment → Evaluation Value
  | [] => return v
  | segment :: rest => do
    if v.isNull then
      if segment.optional then return .null
      else Run.fail (.unresolved (.readOfNull segment.name walked))
    else
      let v ← s.property v segment.name walked
      if segment.optional && v.isNull then return .null
      else s.walk (walked ++ segment.text) v rest

def operator {α : Type} (outcome : Except Mismatch α) : Evaluation α :=
  match outcome with
  | .ok v => return v
  | .error cause => Run.fail (.mismatch cause)

mutual
def evaluate (s : Scope) : Expr → Evaluation Value
  | .literal v => return v
  | .variable name => s.lookup name
  | .path base segments => do
    let v ← s.evaluate base
    s.walk base.text v segments
  | .add left right => do
    let l ← s.evaluate left
    let r ← s.evaluate right
    operator (l.add r)
  | .compare op left right => do
    let l ← s.evaluate left
    let r ← s.evaluate right
    return .bool (← operator (l.compare op r))
  | .and left right => do
    let l ← s.evaluate left
    if ← operator l.toBool then
      let r ← s.evaluate right
      return .bool (← operator r.toBool)
    else return .bool false
  | .or left right => do
    let l ← s.evaluate left
    if ← operator l.toBool then return .bool true
    else
      let r ← s.evaluate right
      return .bool (← operator r.toBool)
  | .not operand => do
    let v ← s.evaluate operand
    return .bool (!(← operator v.toBool))
  | .call target operation arguments => do
    match ← s.evaluate target with
    | .capability handle =>
      if ← s.offers handle operation arguments.length then
        let values ← s.evaluateAll arguments
        s.invoke handle operation values
      else
        Run.fail (.invocation (.noSuchOperation handle.typeName operation arguments.length))
    | v => Run.fail (.invocation (.notCapability operation v.kind))
termination_by structural e => e

/-- The values of arguments, in order. -/
def evaluateAll (s : Scope) : List Expr → Evaluation (List Value)
  | [] => return []
  | e :: rest => do
    let v ← s.evaluate e
    return v :: (← s.evaluateAll rest)
termination_by structural es => es
end

def evaluateBool (s : Scope) (e : Expr) : Evaluation Bool := do
  operator (← s.evaluate e).toBool

def satisfies (s : Scope) : Restriction → Evaluation Bool
  | .compare op left right => do
    let l ← s.evaluate left
    let r ← s.evaluate right
    operator (l.compare op r)
  | .and left right => do
    if ← s.satisfies left then s.satisfies right else return false
  | .or left right => do
    if ← s.satisfies left then return true else s.satisfies right
  | .not operand => do return !(← s.satisfies operand)
  | .holds e => s.evaluateBool e

/-- The object a projection makes of the row, starting from the fields given. -/
def projectOnto (s : Scope) (object : Object) : Projection → Evaluation Object
  | [] => return object
  | (name, e) :: rest => do
    let v ← s.evaluate e
    s.projectOnto (object.insert name v) rest

/-- The object a projection makes of the row. A name given again keeps its place and takes the
later value. -/
def project (s : Scope) (projection : Projection) : Evaluation Object :=
  s.projectOnto .empty projection

end Scope
end RowQuery
