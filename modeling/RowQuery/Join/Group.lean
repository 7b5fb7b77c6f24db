import RowQuery.Evaluation
import RowQuery.Join.Progress

/-!
# Executing a join group

A group goes through three phases. Every guard of every sibling is checked for every row, and a
row is dropped at its first guard that is null or false. Then each sibling's expression is
evaluated for each row left. Only when all of these have settled are the values bound, or, if any
failed, all failures reported. Rows stay in their order however tasks end.
-/

set_option autoImplicit false

namespace RowQuery

/-- What executing queries depends on besides the query and its context. -/
structure Environment where
  host : Host
  scheduler : Scheduler := .prompt
  /-- Why the pool of the engine cannot start, if it cannot. -/
  poolFailure : Option String := none

namespace JoinGroup

def scope (env : Environment) (context : Context) (row : Row) : Scope := ⟨env.host, context, row⟩

/-! ## Guards -/

def passes (s : Scope) : List Expr → Evaluation Bool
  | [] => return true
  | guard :: rest => do
    match ← s.evaluate guard with
    | .null => return false
    | .bool false => return false
    | _ => passes s rest

def applyGuards (env : Environment) (context : Context) (guards : List Expr) :
    List Row → Evaluation (List Row)
  | [] => return []
  | row :: rest => do
    let passed ← passes (scope env context row) guards
    let kept ← applyGuards env context guards rest
    return if passed then row :: kept else kept

/-! ## Evaluation

A slot is the outcome of one cell; a task that never ran leaves it empty. -/

abbrev Slot := Option (Except Fault Value)

/-- The slots of a row when every sibling is evaluated in the course of the query. -/
def evaluateRow (s : Scope) : List Join → Execution (List Slot)
  | [] => return []
  | join :: rest => do
    let outcome ← Run.settled (s.evaluate join.expr)
    return some outcome :: (← evaluateRow s rest)

/-- The slots of all rows when every sibling is evaluated in the course of the query. -/
def evaluateRows (env : Environment) (context : Context) (g : JoinGroup) :
    List Row → Execution (List (List Slot))
  | [] => return []
  | row :: rest => do
    let slots ← evaluateRow (scope env context row) g.siblings
    return slots :: (← evaluateRows env context g rest)

def placement (join : Join) : Placement :=
  match join.dispatch with
  | .sync => .inline
  | .async _ executor => .task executor

/-- The cells of the group in the order of dispatch: row by row, siblings in order. -/
def table (g : JoinGroup) (rows : List Row) : List (Cell × Placement) :=
  (List.range rows.length).flatMap fun i =>
    g.siblings.mapIdx fun j join => (⟨i, j⟩, placement join)

/-- The outcomes of cells so far, the latest first. -/
abbrev Outcomes := List (Cell × Except Fault Value)

def evaluateCell (env : Environment) (context : Context) (g : JoinGroup) (rows : List Row)
    (cell : Cell) : Option (Evaluation Value) :=
  match rows[cell.row]?, g.siblings[cell.sibling]? with
  | some row, some join => some ((scope env context row).evaluate join.expr)
  | _, _ => none

/-- Do what one event asks for. A loader that breaks down stops the dispatcher and the query with
it; inside a task it takes only the task along, so the cell has no outcome. -/
def perform (env : Environment) (context : Context) (g : JoinGroup) (rows : List Row)
    (outcomes : Outcomes) : Effect → Execution Outcomes
  | .nothing => return outcomes
  | .submit _ executor => do
    modify fun world => { world with submissions := world.submissions ++ [executor] }
    return outcomes
  | .evaluate cell =>
    match evaluateCell env context g rows cell with
    | none => return outcomes
    | some evaluation => return (cell, ← Run.settled evaluation) :: outcomes
  | .work cell =>
    match evaluateCell env context g rows cell with
    | none => return outcomes
    | some evaluation => do
      match ← (evaluation.run : StateM World _) with
      | .ok v => return (cell, .ok v) :: outcomes
      | .error (.fault f) => return (cell, .error f) :: outcomes
      | .error .loaderPanic => return outcomes

def performAll (env : Environment) (context : Context) (g : JoinGroup) (rows : List Row)
    (outcomes : Outcomes) : List Effect → Execution Outcomes
  | [] => return outcomes
  | effect :: rest => do
    let outcomes ← perform env context g rows outcomes effect
    performAll env context g rows outcomes rest

/-- The group before its first event. -/
def progress (g : JoinGroup) (rows : List Row) : Progress :=
  { ahead := g.table rows, gate := g.limit?.map Gate.ofLimit }

def evaluateAlong (env : Environment) (context : Context) (g : JoinGroup) (rows : List Row)
    (schedule : Schedule) : Execution (List (List Slot)) := do
  let outcomes ← performAll env context g rows [] ((g.progress rows).course schedule)
  return (List.range rows.length).map fun i =>
    (List.range g.siblings.length).map fun j => outcomes.lookup ⟨i, j⟩

/-- Start the pool of the engine if some sibling needs it and it is not yet started. -/
def startPool (env : Environment) (g : JoinGroup) : Execution Unit := do
  let needed := g.siblings.any fun join => placement join == .task none
  if needed && !(← get).poolStarted then
    match env.poolFailure with
    | some reason => Run.abort (.fault (.pool reason))
    | none => modify fun world => { world with poolStarted := true }

/-! ## Binding -/

/-- The rows with the siblings' values bound, and the failures, in the order of the table. -/
def bindRow (row : Row) : List Join → List Slot → Row × List RowFailure
  | join :: joins, slot :: slots =>
    match slot with
    | some (.ok v) => bindRow (row.bind join.aliasName v) joins slots
    | some (.error f) =>
      let (bound, failures) := bindRow row joins slots
      (bound, ⟨row.index, join.aliasName, f⟩ :: failures)
    | none =>
      let (bound, failures) := bindRow row joins slots
      (bound, ⟨row.index, join.aliasName, .invalidQuery (.lostTask join.aliasName)⟩ :: failures)
  | _, _ => (row, [])

/-- The rows of a group whose cells have settled, or the error of its failures. -/
def bind (g : JoinGroup) (rows : List Row) (slots : List (List Slot)) :
    Except QueryError (List Row) :=
  let bound := List.zipWith (fun row slots => bindRow row g.siblings slots) rows slots
  match bound.flatMap Prod.snd with
  | [] => .ok (bound.map Prod.fst)
  | failures => .error (.ofFailures failures)

/-! ## The group -/

def execute (env : Environment) (context : Context) (g : JoinGroup) (rows : List Row) :
    Execution (List Row) := do
  let rows ← Run.evaluated (applyGuards env context g.guards rows)
  let slots ←
    if g.isAsync then do
      startPool env g
      let schedule := env.scheduler (← get).submissions (g.table rows)
      evaluateAlong env context g rows schedule
    else evaluateRows env context g rows
  match g.bind rows slots with
  | .ok rows => return rows
  | .error e => Run.abort e

end JoinGroup
end RowQuery
