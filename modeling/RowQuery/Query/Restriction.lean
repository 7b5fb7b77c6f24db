import RowQuery.Expr.Basic

/-!
# `Restriction` — the condition of a `where` clause

The logical operators of a condition are laid open down to comparisons and to other expressions
in boolean position.
-/

set_option autoImplicit false

namespace RowQuery

inductive Restriction where
  | compare (op : Comparison) (left right : Expr)
  | and (left right : Restriction)
  | or (left right : Restriction)
  | not (operand : Restriction)
  /-- An expression that must be true. -/
  | holds (e : Expr)
deriving Inhabited

namespace Restriction

def ofExpr : Expr → Restriction
  | .and l r => .and (ofExpr l) (ofExpr r)
  | .or l r => .or (ofExpr l) (ofExpr r)
  | .not e => .not (ofExpr e)
  | .compare op l r => .compare op l r
  | e => .holds e

def equal : Restriction → Restriction → Bool
  | .compare o a b, .compare p c d => o == p && a == c && b == d
  | .and a b, .and c d => equal a c && equal b d
  | .or a b, .or c d => equal a c && equal b d
  | .not a, .not b => equal a b
  | .holds a, .holds b => a == b
  | _, _ => false

instance : BEq Restriction := ⟨equal⟩

end Restriction
end RowQuery
