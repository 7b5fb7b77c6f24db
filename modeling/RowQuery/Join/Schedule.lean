/-!
# `Schedule` — which task of a join group runs when

The joins of a group and the rows that reached them make a table of cells. The dispatcher goes
through the table row by row; where a sibling is evaluated in the course of the query it does so on
the spot, elsewhere it hands a task to an executor. When the executors start and finish their tasks
is theirs to choose, and a task may be dropped unstarted.

A schedule is one such course of events, and a scheduler says how the executors at hand behave.
-/

set_option autoImplicit false

namespace RowQuery

inductive Placement where
  /-- The dispatcher itself. -/
  | inline
  /-- An executor of the caller, or the pool of the engine. -/
  | task (executor : Option Nat)
deriving DecidableEq

/-- A row of the group, by its place among the rows that passed the guards, and a sibling, by its
place in the group. -/
structure Cell where
  row : Nat
  sibling : Nat
deriving DecidableEq

/-- One event while a group is evaluated. -/
inductive Event where
  /-- The dispatcher deals with the next cell of the table. -/
  | dispatch
  /-- An executor starts a task it was handed. -/
  | start (cell : Cell)
  /-- A task that was started ends. -/
  | finish (cell : Cell)
  /-- An executor drops a task it was handed. -/
  | drop (cell : Cell)
deriving DecidableEq

abbrev Schedule := List Event

/-- How executors behave: the course of events for a table of cells, given the executors that were
handed tasks before. -/
abbrev Scheduler := (earlier : List (Option Nat)) → List (Cell × Placement) → Schedule

/-- Every task runs as soon as it is handed over. -/
def Scheduler.prompt : Scheduler := fun _ table =>
  table.flatMap fun (cell, placement) =>
    match placement with
    | .inline => [.dispatch]
    | .task _ => [.dispatch, .start cell, .finish cell]

end RowQuery
