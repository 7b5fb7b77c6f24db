import Mathlib.Data.List.Forall2
import RowQuery.Join.Group
import RowQuery.Proofs.Evaluation.Elementwise

/-!
# An expression depends on the names in it

Where two scopes of one host agree on the names of an expression, the expression is the same
computation in both (`Scope.evaluate_congr`), and so is what is built from expressions: guards,
restrictions, projections.

Runs over whole lists are compared by `Alongside`: from every world the two leave the same world and
succeed together. It is closed under sequencing, and lists of rows that correspond one to one are
gone through alongside each other (`Alongside.sift`).
-/

set_option autoImplicit false

namespace RowQuery

open Run

/-! ## Names -/

namespace Expr

mutual

/-- The names an expression mentions. -/
def names : Expr → List String
  | .literal _ => []
  | .variable name => [name]
  | .path base _ => base.names
  | .add left right => left.names ++ right.names
  | .compare _ left right => left.names ++ right.names
  | .and left right => left.names ++ right.names
  | .or left right => left.names ++ right.names
  | .not operand => operand.names
  | .call target _ arguments => target.names ++ namesAll arguments
termination_by structural e => e

/-- The names a list of expressions mentions. -/
def namesAll : List Expr → List String
  | [] => []
  | e :: rest => e.names ++ namesAll rest
termination_by structural es => es

end

end Expr

/-- The names a restriction mentions. -/
def Restriction.names : Restriction → List String
  | .compare _ left right => left.names ++ right.names
  | .and left right => left.names ++ right.names
  | .or left right => left.names ++ right.names
  | .not operand => operand.names
  | .holds e => e.names

/-! ## Scopes that agree -/

namespace Scope

variable {host : Host} {c c' : Context} {row row' : Row}

/-- The two scopes of this host read the names alike. -/
def SameNames (host : Host) (c : Context) (row : Row) (c' : Context) (row' : Row)
    (names : List String) : Prop :=
  ∀ name ∈ names, lookup ⟨host, c, row⟩ name = lookup ⟨host, c', row'⟩ name

theorem sameNames_append {names names' : List String} :
    SameNames host c row c' row' (names ++ names') ↔
      SameNames host c row c' row' names ∧ SameNames host c row c' row' names' :=
  List.forall_mem_append

/-- Properties are read from values and the host alone. -/
theorem walk_congr (segments : List Segment) : ∀ walked v,
    walk ⟨host, c, row⟩ walked v segments = walk ⟨host, c', row'⟩ walked v segments := by
  induction segments with
  | nil => exact fun _ _ => rfl
  | cons segment rest ih =>
    intro walked v
    unfold walk
    simp only [ih]
    rfl

mutual

/-- An expression is the same computation where its names are read alike. -/
theorem evaluate_congr : ∀ e : Expr, SameNames host c row c' row' e.names →
    evaluate ⟨host, c, row⟩ e = evaluate ⟨host, c', row'⟩ e
  | .literal _, _ => rfl
  | .variable name, h => h name List.mem_cons_self
  | .path base segments, h => by
    rw [evaluate, evaluate, evaluate_congr base h]
    exact bind_congr fun v => walk_congr segments _ v
  | .add left right, h => by
    obtain ⟨hleft, hright⟩ := sameNames_append.mp h
    rw [evaluate, evaluate, evaluate_congr left hleft, evaluate_congr right hright]
  | .compare op left right, h => by
    obtain ⟨hleft, hright⟩ := sameNames_append.mp h
    rw [evaluate, evaluate, evaluate_congr left hleft, evaluate_congr right hright]
  | .and left right, h => by
    obtain ⟨hleft, hright⟩ := sameNames_append.mp h
    rw [evaluate, evaluate, evaluate_congr left hleft, evaluate_congr right hright]
  | .or left right, h => by
    obtain ⟨hleft, hright⟩ := sameNames_append.mp h
    rw [evaluate, evaluate, evaluate_congr left hleft, evaluate_congr right hright]
  | .not operand, h => by
    rw [evaluate, evaluate, evaluate_congr operand h]
  | .call target operation arguments, h => by
    obtain ⟨htarget, harguments⟩ := sameNames_append.mp h
    rw [evaluate, evaluate, evaluate_congr target htarget, evaluateAll_congr arguments harguments]
    rfl

theorem evaluateAll_congr : ∀ es : List Expr, SameNames host c row c' row' (Expr.namesAll es) →
    evaluateAll ⟨host, c, row⟩ es = evaluateAll ⟨host, c', row'⟩ es
  | [], _ => rfl
  | e :: rest, h => by
    obtain ⟨he, hrest⟩ := sameNames_append.mp h
    rw [evaluateAll, evaluateAll, evaluate_congr e he, evaluateAll_congr rest hrest]

end

theorem satisfies_congr (r : Restriction) (h : SameNames host c row c' row' r.names) :
    satisfies ⟨host, c, row⟩ r = satisfies ⟨host, c', row'⟩ r := by
  induction r with
  | compare op left right =>
    obtain ⟨hleft, hright⟩ := sameNames_append.mp h
    rw [satisfies, satisfies, evaluate_congr left hleft, evaluate_congr right hright]
  | and left right ihl ihr =>
    obtain ⟨hleft, hright⟩ := sameNames_append.mp h
    rw [satisfies, satisfies, ihl hleft, ihr hright]
  | or left right ihl ihr =>
    obtain ⟨hleft, hright⟩ := sameNames_append.mp h
    rw [satisfies, satisfies, ihl hleft, ihr hright]
  | not operand ih => rw [satisfies, satisfies, ih h]
  | holds e =>
    rw [satisfies, satisfies, evaluateBool, evaluateBool, evaluate_congr e h]

theorem projectOnto_congr (p : Projection) :
    SameNames host c row c' row' (p.flatMap fun field => field.2.names) → ∀ object,
      projectOnto ⟨host, c, row⟩ object p = projectOnto ⟨host, c', row'⟩ object p := by
  induction p with
  | nil => exact fun _ _ => rfl
  | cons field rest ih =>
    intro h object
    obtain ⟨hfield, hrest⟩ := sameNames_append.mp h
    rw [projectOnto, projectOnto, evaluate_congr field.2 hfield]
    exact bind_congr fun v => ih hrest _

theorem passes_congr (guards : List Expr)
    (h : SameNames host c row c' row' (guards.flatMap Expr.names)) :
    JoinGroup.passes ⟨host, c, row⟩ guards = JoinGroup.passes ⟨host, c', row'⟩ guards := by
  induction guards with
  | nil => rfl
  | cons guard rest ih =>
    obtain ⟨hguard, hrest⟩ := sameNames_append.mp h
    rw [JoinGroup.passes, JoinGroup.passes, evaluate_congr guard hguard, ih hrest]

theorem evaluateRow_congr (joins : List Join)
    (h : SameNames host c row c' row' (joins.flatMap fun join => join.expr.names)) :
    JoinGroup.evaluateRow ⟨host, c, row⟩ joins = JoinGroup.evaluateRow ⟨host, c', row'⟩ joins := by
  induction joins with
  | nil => rfl
  | cons join rest ih =>
    obtain ⟨hjoin, hrest⟩ := sameNames_append.mp h
    rw [JoinGroup.evaluateRow, JoinGroup.evaluateRow, evaluate_congr join.expr hjoin, ih hrest]

end Scope

/-! ## Runs alongside each other -/

/-- From every world the two runs leave the same world, and either both succeed, with related
results, or both fail. -/
def Alongside {ε α β : Type} (rel : α → β → Prop) (m : Run ε α) (m' : Run ε β) : Prop :=
  ∀ w, ∃ w',
    (∃ a b, outcome m w = (.ok a, w') ∧ outcome m' w = (.ok b, w') ∧ rel a b) ∨
    (∃ e e', outcome m w = (.error e, w') ∧ outcome m' w = (.error e', w'))

namespace Alongside

variable {ε α β α' β' : Type} {rel : α → α' → Prop} {rel' : β → β' → Prop}
  {m : Run ε α} {m' : Run ε α'}

theorem pure {a : α} {a' : α'} (h : rel a a') :
    Alongside rel (pure a : Run ε α) (pure a' : Run ε α') :=
  fun w => ⟨w, .inl ⟨a, a', rfl, rfl, h⟩⟩

theorem throw (e e' : ε) : Alongside rel (throw e : Run ε α) (throw e' : Run ε α') :=
  fun w => ⟨w, .inr ⟨e, e', rfl, rfl⟩⟩

theorem refl (m : Run ε α) : Alongside Eq m m := by
  intro w
  rcases h : outcome m w with ⟨e | a, w'⟩
  · exact ⟨w', .inr ⟨e, e, rfl, rfl⟩⟩
  · exact ⟨w', .inl ⟨a, a, rfl, rfl, rfl⟩⟩

theorem bind {f : α → Run ε β} {f' : α' → Run ε β'} (hm : Alongside rel m m')
    (hf : ∀ a a', rel a a' → Alongside rel' (f a) (f' a')) :
    Alongside rel' (m >>= f) (m' >>= f') := by
  intro w
  obtain ⟨w₁, ⟨a, a', hout, hout', h⟩ | ⟨e, e', hout, hout'⟩⟩ := hm w
  · rw [outcome_bind_ok hout, outcome_bind_ok hout']
    exact hf a a' h w₁
  · rw [outcome_bind_error hout, outcome_bind_error hout']
    exact ⟨w₁, .inr ⟨e, e', rfl, rfl⟩⟩

theorem evaluated {m : Evaluation α} {m' : Evaluation α'} (h : Alongside rel m m') :
    Alongside rel (Run.evaluated m) (Run.evaluated m') := by
  intro w
  rw [outcome_evaluated, outcome_evaluated]
  obtain ⟨w', ⟨a, a', hout, hout', h⟩ | ⟨e, e', hout, hout'⟩⟩ := h w
  · rw [hout, hout']
    exact ⟨w', .inl ⟨a, a', rfl, rfl, h⟩⟩
  · rw [hout, hout']
    exact ⟨w', .inr ⟨_, _, rfl, rfl⟩⟩

/-- What one of the two comes to, the other comes to. -/
theorem answer_eq_ok_iff {m m' : Run ε α} (h : Alongside Eq m m') {a : α} :
    m.answer = .ok a ↔ m'.answer = .ok a := by
  unfold answer
  obtain ⟨w', ⟨b, b', hout, hout', rfl⟩ | ⟨e, e', hout, hout'⟩⟩ := h {}
  · rw [hout, hout']
  · rw [hout, hout']
    constructor
    · intro h
      cases h
    · intro h
      cases h

theorem sift {step : α → Evaluation (Option β)} {step' : α' → Evaluation (Option β')}
    (hstep : ∀ a a', rel a a' → Alongside (Option.Rel rel') (step a) (step' a')) {as : List α}
    {as' : List α'} (h : List.Forall₂ rel as as') :
    Alongside (List.Forall₂ rel') (RowQuery.sift step as) (RowQuery.sift step' as') := by
  induction h with
  | nil => exact .pure .nil
  | cons hhead _ ih =>
    refine (hstep _ _ hhead).bind fun got got' hgot => ih.bind fun kept kept' hkept => .pure ?_
    cases hgot with
    | none => exact hkept
    | some hrel => exact .cons hrel hkept

theorem keepIf {test : α → Evaluation Bool} {test' : α' → Evaluation Bool} {a : α} {a' : α'}
    (htest : test a = test' a') (h : rel a a') :
    Alongside (Option.Rel rel) (RowQuery.keepIf test a) (RowQuery.keepIf test' a') := by
  unfold RowQuery.keepIf
  rw [htest]
  refine (refl (test' a')).bind fun passed passed' heq => ?_
  cases heq
  cases passed with
  | true => exact .pure (.some h)
  | false => exact .pure .none

end Alongside
end RowQuery
