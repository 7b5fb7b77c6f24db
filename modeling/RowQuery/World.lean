import RowQuery.Error
import RowQuery.Host

/-!
# `World` — what a query leaves behind

A query changes nothing it computes with. What it leaves behind is a record: the calls it made of
the host, the names it asked loaders for and what they answered, the tasks it handed to executors,
and whether the engine's pool has been started. A run threads this record through and keeps it
when it fails.
-/

set_option autoImplicit false

namespace RowQuery

structure Load where
  /-- Which loader. -/
  loader : Nat
  name : String
deriving DecidableEq

/-- The record of everything done so far. -/
structure World where
  /-- The calls of host operations, oldest first. -/
  invocations : List Invocation := []
  /-- The calls of loaders, oldest first. -/
  loads : List Load := []
  /-- What loaders have answered; `none` is a name they do not know. -/
  loaded : List (Load × Option Value) := []
  /-- The executors that were handed a task, oldest first; `none` is the pool of the engine. -/
  submissions : List (Option Nat) := []
  /-- Whether the pool of the engine has been started. -/
  poolStarted : Bool := false

/-- Why an evaluation stops without a value. -/
inductive Stop where
  | fault (f : Fault)
  /-- A loader broke down. -/
  | loaderPanic

/-- Why a query stops without results. -/
inductive Halt where
  | error (e : QueryError)
  /-- A loader broke down. -/
  | loaderPanic

/-- A computation that keeps the record and may stop with an `ε`. -/
abbrev Run (ε : Type) := ExceptT ε (StateM World)

abbrev Evaluation := Run Stop

abbrev Execution := Run Halt

def Stop.toHalt : Stop → Halt
  | .fault f => .error (.fault f)
  | .loaderPanic => .loaderPanic

namespace Run

def fail {α : Type} (f : Fault) : Evaluation α := throw (.fault f)

def abort {α : Type} (e : QueryError) : Execution α := throw (.error e)

/-- An evaluation as part of an execution: what stops it stops the query. -/
def evaluated {α : Type} (e : Evaluation α) : Execution α :=
  ExceptT.adapt Stop.toHalt e

/-- An evaluation whose fault is its outcome; only a loader that broke down stops the query. -/
def settled {α : Type} (e : Evaluation α) : Execution (Except Fault α) := do
  match (← (e.run : StateM World _)) with
  | .ok v => return .ok v
  | .error (.fault f) => return .error f
  | .error .loaderPanic => throw .loaderPanic

end Run
end RowQuery
