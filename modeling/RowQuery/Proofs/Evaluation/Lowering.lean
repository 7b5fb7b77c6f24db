import RowQuery.Evaluation

/-!
# A condition means what its expression means

A `where` clause is written as an expression and kept as a restriction, and the two have evaluators
of their own. `Scope.satisfies_ofExpr` says that these are one computation: from every world they
answer alike or stop alike, with the same calls in the same order.

The evaluator of expressions passes every truth value through a `Value` and reads it back
(`operator_toBool_bool`). With that out of the way each connective has an equation in which
expressions stand in boolean position throughout, and these are the equations of `satisfies`.
-/

set_option autoImplicit false

namespace RowQuery
namespace Scope

variable (s : Scope)

/-- A truth value that is put into a `Value` is read back as it was. -/
theorem operator_toBool_bool (b : Bool) : operator (Value.bool b).toBool = pure b := rfl

/-! ## Expressions in boolean position -/

theorem evaluateBool_compare (op : Comparison) (l r : Expr) :
    s.evaluateBool (.compare op l r) = (do
      let v ← s.evaluate l
      let v' ← s.evaluate r
      operator (v.compare op v')) := by
  unfold evaluateBool
  rw [evaluate]
  simp only [bind_assoc, pure_bind, operator_toBool_bool, bind_pure]

theorem evaluateBool_and (l r : Expr) :
    s.evaluateBool (.and l r) = (do
      if ← s.evaluateBool l then s.evaluateBool r else return false) := by
  unfold evaluateBool
  rw [evaluate, bind_assoc, bind_assoc]
  refine bind_congr fun v => ?_
  rw [bind_assoc]
  refine bind_congr fun b => ?_
  -- the left side decides or leaves the answer to the right one
  cases b with
  | false => rfl
  | true => simp only [if_true, bind_assoc, pure_bind, operator_toBool_bool, bind_pure]

theorem evaluateBool_or (l r : Expr) :
    s.evaluateBool (.or l r) = (do
      if ← s.evaluateBool l then return true else s.evaluateBool r) := by
  unfold evaluateBool
  rw [evaluate, bind_assoc, bind_assoc]
  refine bind_congr fun v => ?_
  rw [bind_assoc]
  refine bind_congr fun b => ?_
  cases b with
  | true => rfl
  | false =>
    simp only [Bool.false_eq_true, if_false, bind_assoc, pure_bind, operator_toBool_bool, bind_pure]

theorem evaluateBool_not (e : Expr) :
    s.evaluateBool (.not e) = do return !(← s.evaluateBool e) := by
  unfold evaluateBool
  rw [evaluate]
  simp only [bind_assoc, pure_bind, operator_toBool_bool]

/-! ## The condition of an expression -/

/-- Testing the condition made of an expression is evaluating the expression in boolean position,
whatever the host answers: the same truth value or the same failure, the same calls in the same
order. -/
theorem satisfies_ofExpr (e : Expr) : s.satisfies (.ofExpr e) = s.evaluateBool e := by
  fun_induction Restriction.ofExpr e with
  | case1 l r ihl ihr => rw [satisfies, ihl, ihr, evaluateBool_and]
  | case2 l r ihl ihr => rw [satisfies, ihl, ihr, evaluateBool_or]
  | case3 e ih => rw [satisfies, ih, evaluateBool_not]
  | case4 op l r => rw [satisfies, evaluateBool_compare]
  | case5 e => rw [satisfies]

end Scope
end RowQuery
