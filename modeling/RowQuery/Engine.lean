import RowQuery.Join.Group
import RowQuery.Query.Reading

/-!
# `Engine` — executing queries

A query is executed stage by stage over all its rows: the source is bound, the groups follow one
after another, then the restriction and at last the projection. The first stage that fails decides
the error.
-/

set_option autoImplicit false

namespace RowQuery

namespace Query

/-- The rows of the source: one for each element of an array, one for any other value. -/
def bindSource (source : Source) (context : Context) : Execution (List Row) := do
  match ← Run.evaluated (context.get? source.name) with
  | none => Run.abort (.fault (.unresolved (.sourceUndefined source.name)))
  | some .null => Run.abort (.fault (.unresolved (.sourceNull source.name)))
  | some (.array items) => return items.mapIdx fun i item => .ofElement i source.aliasName item
  | some v => return [.ofElement 0 source.aliasName v]

/-- The rows after the groups, one group after another. -/
def executeGroups (env : Environment) (context : Context) :
    List JoinGroup → List Row → Execution (List Row)
  | [], rows => return rows
  | g :: rest, rows => do
    let rows ← g.execute env context rows
    executeGroups env context rest rows

def restrict (env : Environment) (context : Context) (r : Restriction) :
    List Row → Evaluation (List Row)
  | [] => return []
  | row :: rest => do
    let met ← (JoinGroup.scope env context row).satisfies r
    let kept ← restrict env context r rest
    return if met then row :: kept else kept

def projectAll (env : Environment) (context : Context) (projection : Projection) :
    List Row → Evaluation (List Object)
  | [] => return []
  | row :: rest => do
    let object ← (JoinGroup.scope env context row).project projection
    return object :: (← projectAll env context projection rest)

def execute (env : Environment) (context : Context) (q : Query) : Execution (List Object) := do
  let rows ← bindSource q.source context
  let rows ← executeGroups env context q.groups rows
  let rows ← match q.restriction with
    | none => pure rows
    | some r => Run.evaluated (restrict env context r rows)
  Run.evaluated (projectAll env context q.projection rows)

def executeText (env : Environment) (context : Context) (text : String) :
    Execution (List Object) :=
  match parse text with
  | .ok q => q.execute env context
  | .error e => Run.abort (.fault (.parse e))

end Query

structure Engine where
  /-- The threads of the pool for tasks without an executor of their own. -/
  threads : Nat
  threadName : String := "mql-worker"

/-- The engine after what the record says, as it is shown. -/
def Engine.inspect (e : Engine) (world : World) : String :=
  "Engine \x7b config: EngineConfig \x7b worker_threads: " ++ toString e.threads
    ++ ", thread_name_prefix: " ++ quote e.threadName ++ " \x7d, default_pool: "
    ++ (if world.poolStarted then "true" else "false") ++ " \x7d"

end RowQuery
