import RowQuery.Join.Gate
import RowQuery.Join.Schedule

/-!
# `Progress` — how far the evaluation of a group has come

Every event takes the group from one state to the next, if it is possible at all: the dispatcher
waits while all permits are out, and only a task that was handed over can start or be dropped, and
only one that was started can finish. `Progress.step?` says so and says what the event makes
somebody do; what is computed on the way plays no part.

A task holds its permit from the moment it is handed over to its end, so the tasks that are queued
or running are exactly the holders of permits.
-/

set_option autoImplicit false

namespace RowQuery

/-- What an event makes somebody do. -/
inductive Effect where
  | nothing
  /-- The dispatcher evaluates a cell itself. -/
  | evaluate (cell : Cell)
  /-- The dispatcher hands the task of a cell to an executor. -/
  | submit (cell : Cell) (executor : Option Nat)
  /-- A task evaluates its cell. -/
  | work (cell : Cell)
deriving DecidableEq

/-- A state between two events. -/
structure Progress where
  /-- The cells the dispatcher has not come to, in the order of dispatch. -/
  ahead : List (Cell × Placement)
  /-- Tasks handed over and not yet started. -/
  queued : List Cell := []
  /-- Tasks an executor is at work on. -/
  running : List Cell := []
  /-- What tasks take their permits from, if their number is limited. -/
  gate : Option Gate := none

namespace Progress

/-- The gate after one more permit is taken, if one is to be had. -/
def acquire? : Option Gate → Option (Option Gate)
  | none => some none
  | some gate => gate.acquire?.map some

/-- The gate after a permit is given back. -/
def release? : Option Gate → Option (Option Gate)
  | none => some none
  | some gate => gate.release?.map some

/-- What an event does in this state and the state after it; none if it is not possible here. -/
def step? (p : Progress) : Event → Option (Effect × Progress)
  | .dispatch =>
    match p.ahead with
    | [] => none
    | (cell, .inline) :: ahead => some (.evaluate cell, { p with ahead })
    | (cell, .task executor) :: ahead => do
      let gate ← acquire? p.gate
      return (.submit cell executor, { p with ahead, gate, queued := p.queued ++ [cell] })
  | .start cell =>
    if cell ∈ p.queued then
      some (.nothing, { p with
        queued := p.queued.erase cell, running := p.running ++ [cell] })
    else none
  | .finish cell =>
    if cell ∈ p.running then do
      let gate ← release? p.gate
      return (.work cell, { p with gate, running := p.running.erase cell })
    else none
  | .drop cell =>
    if cell ∈ p.queued then do
      let gate ← release? p.gate
      return (.nothing, { p with gate, queued := p.queued.erase cell })
    else none

/-- What the possible events of a schedule do, one after another, and the state they lead to. -/
def follow (p : Progress) : Schedule → List Effect × Progress
  | [] => ([], p)
  | event :: rest =>
    match p.step? event with
    | none => p.follow rest
    | some (effect, q) =>
      let (effects, last) := q.follow rest
      (effect :: effects, last)

/-- How a group ends when its schedule says nothing more: tasks under way finish, and every other
task is dropped as soon as it can be. -/
def conclusion (p : Progress) : Schedule :=
  p.running.map .finish ++ p.queued.map .drop ++ p.ahead.flatMap fun (cell, placement) =>
    match placement with
    | .inline => [.dispatch]
    | .task _ => [.dispatch, .drop cell]

/-- What a schedule does from here to the end of the group. -/
def course (p : Progress) (schedule : Schedule) : List Effect :=
  let (effects, last) := p.follow schedule
  effects ++ (last.follow last.conclusion).1

end Progress
end RowQuery
