import RowQuery.Query.Restriction

/-!
# `Query` — a whole query

A query takes its rows from a named source, extends them by groups of joins, keeps those that
meet a restriction and makes an object of each.
-/

set_option autoImplicit false

namespace RowQuery

/-- `from name as alias`. -/
structure Source where
  name : String
  aliasName : String
deriving DecidableEq

/-- How a join expression is evaluated. -/
inductive Dispatch where
  /-- In the course of the query itself. -/
  | sync
  /-- As one task a row, at most `limit` of them at a time, handed to an executor of the caller or
  else to the pool of the engine. -/
  | async (limit : Option Nat) (executor : Option Nat)
deriving DecidableEq

namespace Dispatch

def isAsync : Dispatch → Bool
  | .sync => false
  | .async _ _ => true

def limit? : Dispatch → Option Nat
  | .sync => none
  | .async limit _ => limit

def inspect : Dispatch → String
  | .sync => "Sync"
  | .async limit executor =>
    let limit := match limit with
      | none => "None"
      | some n => "Some(" ++ toString n ++ ")"
    "Async \x7b limit: " ++ limit ++ ", custom_executor: "
      ++ (if executor.isSome then "true" else "false") ++ " \x7d"

end Dispatch

/-- `expr as alias on guard`. -/
structure Join where
  aliasName : String
  expr : Expr
  guard : Option Expr
  dispatch : Dispatch
deriving BEq

/-- Sibling joins. All guards of a group are checked before any of its expressions is
evaluated. -/
structure JoinGroup where
  siblings : List Join
deriving BEq

namespace JoinGroup

def isAsync (g : JoinGroup) : Bool := g.siblings.any (·.dispatch.isAsync)

/-- The smallest limit that a sibling sets. -/
def limit? (g : JoinGroup) : Option Nat := (g.siblings.filterMap (·.dispatch.limit?)).min?

def guards (g : JoinGroup) : List Expr := g.siblings.filterMap (·.guard)

end JoinGroup

/-- The fields of `select new`, names repeated as they were given. -/
abbrev Projection := List (String × Expr)

structure Query where
  source : Source
  groups : List JoinGroup
  restriction : Option Restriction
  projection : Projection
deriving BEq

end RowQuery
