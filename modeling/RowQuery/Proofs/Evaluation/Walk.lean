import RowQuery.Engine

/-!
# What all evaluations have in common

Evaluating an expression comes down to four things, looking names up in the context, asking for
operations, calling them and failing, done one after another. A property of evaluations that each of these has,
and that a sequence has if its steps do, is `EvaluationClosed`. Every expression has it then, and
all guards, restrictions and projections: the one walk through the evaluator is made here.
-/

set_option autoImplicit false

namespace RowQuery

/-- What evaluating with this host in this context is made of has the property, and sequences keep
it. -/
structure EvaluationClosed (host : Host) (c : Context)
    (P : {α : Type} → Evaluation α → Prop) : Prop where
  pure {α : Type} (a : α) : P (pure a : Evaluation α)
  fail {α : Type} (f : Fault) : P (Run.fail f : Evaluation α)
  bind {α β : Type} {m : Evaluation α} {f : α → Evaluation β} (hm : P m) (hf : ∀ a, P (f a)) :
    P (m >>= f)
  get? (name : String) : P (c.get? name)
  offers (row : Row) (target : Handle) (operation : String) (arity : Nat) :
    P (Scope.offers ⟨host, c, row⟩ target operation arity)
  invoke (row : Row) (target : Handle) (operation : String) (arguments : List Value) :
    P (Scope.invoke ⟨host, c, row⟩ target operation arguments)

namespace EvaluationClosed

variable {host : Host} {c : Context} {P : {α : Type} → Evaluation α → Prop}
  (h : EvaluationClosed host c P)

include h

theorem lookup (row : Row) (name : String) : P (Scope.lookup ⟨host, c, row⟩ name) := by
  unfold Scope.lookup
  split
  · exact h.pure _
  · refine h.bind (h.get? name) fun answer => ?_
    split
    · exact h.pure _
    · exact h.fail _

theorem operator {α : Type} (outcome : Except Mismatch α) : P (Scope.operator outcome) := by
  unfold Scope.operator
  split
  · exact h.pure _
  · exact h.fail _

theorem property (row : Row) (v : Value) (name walked : String) :
    P (Scope.property ⟨host, c, row⟩ v name walked) := by
  unfold Scope.property
  split
  · exact h.pure _
  · refine h.bind (h.offers row _ _ _) fun offered => ?_
    split
    · exact h.invoke _ _ _ _
    · refine h.bind (h.offers row _ _ _) fun offered => ?_
      split
      · exact h.invoke _ _ _ _
      · exact h.fail _
  · exact h.fail _

theorem walk (row : Row) (segments : List Segment) :
    ∀ walked v, P (Scope.walk ⟨host, c, row⟩ walked v segments) := by
  induction segments with
  | nil => exact fun _ _ => h.pure _
  | cons segment rest ih =>
    intro walked v
    unfold Scope.walk
    split
    · split
      · exact h.pure _
      · exact h.fail _
    · refine h.bind (h.property row _ _ _) fun v => ?_
      split
      · exact h.pure _
      · exact ih _ _

mutual

theorem evaluate (row : Row) : ∀ e : Expr, P (Scope.evaluate ⟨host, c, row⟩ e)
  | .literal v => h.pure v
  | .variable name => h.lookup row name
  | .path base segments => h.bind (evaluate row base) fun _ => h.walk row segments _ _
  | .add left right =>
    h.bind (evaluate row left) fun _ => h.bind (evaluate row right) fun _ => h.operator _
  | .compare op left right =>
    h.bind (evaluate row left) fun _ =>
      h.bind (evaluate row right) fun _ => h.bind (h.operator _) fun _ => h.pure _
  | .and left right => by
    refine h.bind (evaluate row left) fun _ => h.bind (h.operator _) fun b => ?_
    cases b with
    | false => exact h.pure _
    | true => exact h.bind (evaluate row right) fun _ => h.bind (h.operator _) fun _ => h.pure _
  | .or left right => by
    refine h.bind (evaluate row left) fun _ => h.bind (h.operator _) fun b => ?_
    cases b with
    | true => exact h.pure _
    | false => exact h.bind (evaluate row right) fun _ => h.bind (h.operator _) fun _ => h.pure _
  | .not operand =>
    h.bind (evaluate row operand) fun _ => h.bind (h.operator _) fun _ => h.pure _
  | .call target operation arguments => by
    refine h.bind (evaluate row target) fun v => ?_
    cases v with
    | capability handle =>
      refine h.bind (h.offers row _ _ _) fun offered => ?_
      split
      · exact h.bind (evaluateAll row arguments) fun _ => h.invoke _ _ _ _
      · exact h.fail _
    | _ => exact h.fail _

theorem evaluateAll (row : Row) : ∀ es : List Expr, P (Scope.evaluateAll ⟨host, c, row⟩ es)
  | [] => h.pure []
  | e :: rest =>
    h.bind (evaluate row e) fun _ => h.bind (evaluateAll row rest) fun _ => h.pure _

end

theorem satisfies (row : Row) (r : Restriction) : P (Scope.satisfies ⟨host, c, row⟩ r) := by
  induction r with
  | compare op left right =>
    exact h.bind (h.evaluate row left) fun _ => h.bind (h.evaluate row right) fun _ => h.operator _
  | and left right ihl ihr =>
    refine h.bind ihl fun met => ?_
    cases met with
    | true => exact ihr
    | false => exact h.pure _
  | or left right ihl ihr =>
    refine h.bind ihl fun met => ?_
    cases met with
    | true => exact h.pure _
    | false => exact ihr
  | not operand ih => exact h.bind ih fun _ => h.pure _
  | holds e => exact h.bind (h.evaluate row e) fun _ => h.operator _

theorem projectOnto (row : Row) (projection : Projection) :
    ∀ object, P (Scope.projectOnto ⟨host, c, row⟩ object projection) := by
  induction projection with
  | nil => exact fun _ => h.pure _
  | cons field rest ih => exact fun _ => h.bind (h.evaluate row field.2) fun _ => ih _

theorem passes (row : Row) (guards : List Expr) : P (JoinGroup.passes ⟨host, c, row⟩ guards) := by
  induction guards with
  | nil => exact h.pure _
  | cons guard rest ih =>
    unfold JoinGroup.passes
    refine h.bind (h.evaluate row guard) fun v => ?_
    split
    · exact h.pure _
    · exact h.pure _
    · exact ih

end EvaluationClosed

/-! ## All rows -/

namespace EvaluationClosed

variable {env : Environment} {c : Context} {P : {α : Type} → Evaluation α → Prop}
  (h : EvaluationClosed env.host c P)

include h

theorem applyGuards (guards : List Expr) (rows : List Row) :
    P (JoinGroup.applyGuards env c guards rows) := by
  induction rows with
  | nil => exact h.pure _
  | cons row rest ih => exact h.bind (h.passes row guards) fun _ => h.bind ih fun _ => h.pure _

theorem restrict (r : Restriction) (rows : List Row) : P (Query.restrict env c r rows) := by
  induction rows with
  | nil => exact h.pure _
  | cons row rest ih => exact h.bind (h.satisfies row r) fun _ => h.bind ih fun _ => h.pure _

theorem projectAll (projection : Projection) (rows : List Row) :
    P (Query.projectAll env c projection rows) := by
  induction rows with
  | nil => exact h.pure _
  | cons row rest ih =>
    exact h.bind (h.projectOnto row projection _) fun _ => h.bind ih fun _ => h.pure _

end EvaluationClosed
end RowQuery
