import RowQuery.Comparison
import RowQuery.Value.Basic

/-!
# `Expr` — the expressions of the query language

A property path is kept flat: a base and the segments read from it one after another. `segment`
keeps it so by extending a path in place.
-/

set_option autoImplicit false

namespace RowQuery

structure Segment where
  name : String
  /-- Whether a null here makes the whole path null. -/
  optional : Bool
deriving DecidableEq

inductive Expr where
  | literal (v : Value)
  /-- An alias of the row or a name of the context. -/
  | variable (name : String)
  | path (base : Expr) (segments : List Segment)
  | add (left right : Expr)
  | compare (op : Comparison) (left right : Expr)
  | and (left right : Expr)
  | or (left right : Expr)
  | not (operand : Expr)
  | call (target : Expr) (operation : String) (arguments : List Expr)
deriving Inhabited

namespace Expr

/-- Read one more property: a path grows, any other expression becomes the base of one. -/
def segment (e : Expr) (s : Segment) : Expr :=
  match e with
  | .path base segments => .path base (segments ++ [s])
  | base => .path base [s]

/-- Whether the expression is an operator with operands beside it, which needs parentheses inside
another. -/
def isOperator : Expr → Bool
  | .add _ _ => true
  | .compare _ _ _ => true
  | .and _ _ => true
  | .or _ _ => true
  | .not _ => true
  | _ => false

mutual
/-- Whether two expressions are the same, literals being compared as values. -/
def equal : Expr → Expr → Bool
  | .literal v, .literal w => v == w
  | .variable m, .variable n => m == n
  | .path a ss, .path b ts => equal a b && ss == ts
  | .add a b, .add c d => equal a c && equal b d
  | .compare o a b, .compare p c d => o == p && equal a c && equal b d
  | .and a b, .and c d => equal a c && equal b d
  | .or a b, .or c d => equal a c && equal b d
  | .not a, .not b => equal a b
  | .call a m xs, .call b n ys => equal a b && m == n && equalArguments xs ys
  | _, _ => false
termination_by structural e => e

def equalArguments : List Expr → List Expr → Bool
  | [], [] => true
  | x :: xs, y :: ys => equal x y && equalArguments xs ys
  | _, _ => false
termination_by structural xs => xs
end

instance : BEq Expr := ⟨equal⟩

end Expr
end RowQuery
