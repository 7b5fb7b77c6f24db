import RowQuery.Proofs.Evaluation.Coincidence

/-!
# Two runs in lockstep

`Lockstep R m m'` says that from worlds related by `R` the runs `m` and `m'` come to the same and
leave related worlds. It is closed under sequencing. Where lookups of some names go in lockstep in
two contexts (`Coupling`), so does every expression whose other names the row has bound
(`Coupling.evaluate`), and with it guards, restrictions and projections.

Contexts need not be pure here: `R` can say of either side what has been looked up so far, and so
the same walk tells what a single run does to its world.
-/

set_option autoImplicit false

namespace RowQuery

open Run

/-! ## Runs -/

/-- From related worlds the two runs come to the same and leave related worlds. -/
def Lockstep {ε α : Type} (R : World → World → Prop) (m m' : Run ε α) : Prop :=
  ∀ w w', R w w' → (outcome m w).1 = (outcome m' w').1 ∧ R (outcome m w).2 (outcome m' w').2

/-- What the run succeeds with has the property, wherever it is started. -/
def Yields {ε α : Type} (P : α → Prop) (m : Run ε α) : Prop :=
  ∀ w a w', outcome m w = (.ok a, w') → P a

namespace Yields

variable {ε α β : Type} {P : α → Prop} {Q : β → Prop}

theorem pure {a : α} (h : P a) : Yields P (pure a : Run ε α) := by
  intro w b w' hout
  cases hout
  exact h

theorem throw (e : ε) : Yields P (throw e : Run ε α) := by
  intro w b w' hout
  cases hout

theorem trivial (m : Run ε α) : Yields (fun _ => True) m := fun _ _ _ _ => True.intro

theorem bind {m : Run ε α} {f : α → Run ε β} (hm : Yields P m) (hf : ∀ a, P a → Yields Q (f a)) :
    Yields Q (m >>= f) := by
  intro w b w' hout
  rw [outcome_bind] at hout
  rcases h : outcome m w with ⟨e | a, w₁⟩
  · rw [h] at hout
    cases hout
  · rw [h] at hout
    exact hf a (hm w a w₁ h) w₁ b w' hout

/-- A sequence whose second step has the property whatever the first came to. -/
theorem bind_free {m : Run ε α} {f : α → Run ε β} (hf : ∀ a, Yields Q (f a)) :
    Yields Q (m >>= f) := (trivial m).bind fun a _ => hf a

theorem evaluated {m : Evaluation α} (h : Yields P m) : Yields P (Run.evaluated m) := by
  intro w a w' hout
  rw [outcome_evaluated] at hout
  rcases hm : outcome m w with ⟨e | b, w₁⟩
  · rw [hm] at hout
    cases hout
  · rw [hm] at hout
    cases hout
    exact h w a w₁ hm

theorem sift_keepIf (test : α → Evaluation Bool) (as : List α) :
    Yields (· ⊆ as) (sift (keepIf test) as) := by
  induction as with
  | nil => exact .pure (List.Subset.refl _)
  | cons a rest ih =>
    rw [sift_keepIf_cons]
    refine .bind_free fun passed => ih.bind fun kept hkept => .pure ?_
    split
    · exact List.cons_subset_cons a hkept
    · exact List.subset_cons_of_subset a hkept

end Yields

namespace Lockstep

variable {ε α β : Type} {R : World → World → Prop} {m m' : Run ε α} {f f' : α → Run ε β}

theorem pure (a : α) : Lockstep R (pure a : Run ε α) (pure a) := fun _ _ h => ⟨rfl, h⟩

theorem throw (e : ε) : Lockstep R (throw e : Run ε α) (throw e) := fun _ _ h => ⟨rfl, h⟩

theorem bind_of_yields {P : α → Prop} (hm : Lockstep R m m') (hP : Yields P m)
    (hf : ∀ a, P a → Lockstep R (f a) (f' a)) : Lockstep R (m >>= f) (m' >>= f') := by
  intro w w' h
  obtain ⟨hsame, hafter⟩ := hm w w' h
  rcases hout : outcome m w with ⟨e | a, w₁⟩
  -- the other run came to the same, so both go on or neither does
  all_goals
    rcases hout' : outcome m' w' with ⟨r, w₁'⟩
    rw [hout, hout'] at hsame hafter
    dsimp only at hsame hafter
    subst hsame
  · rw [outcome_bind_error hout, outcome_bind_error hout']
    exact ⟨rfl, hafter⟩
  · rw [outcome_bind_ok hout, outcome_bind_ok hout']
    exact hf a (hP w a w₁ hout) w₁ w₁' hafter

theorem bind (hm : Lockstep R m m') (hf : ∀ a, Lockstep R (f a) (f' a)) :
    Lockstep R (m >>= f) (m' >>= f') := hm.bind_of_yields (.trivial m) fun a _ => hf a

theorem evaluated {e e' : Evaluation α} (h : Lockstep R e e') :
    Lockstep R (Run.evaluated e) (Run.evaluated e') := by
  intro w w' hw
  obtain ⟨hsame, hafter⟩ := h w w' hw
  rw [outcome_evaluated, outcome_evaluated, hsame]
  exact ⟨rfl, hafter⟩

/-- A step that goes on whatever came of the run before. -/
theorem bind_run {δ : Type} {e e' : Run δ α} {f f' : Except δ α → Run ε β} (h : Lockstep R e e')
    (hf : ∀ r, Lockstep R (f r) (f' r)) :
    Lockstep R ((liftM (ExceptT.run e : StateM World _) : Run ε (Except δ α)) >>= f)
      ((liftM (ExceptT.run e' : StateM World _) : Run ε (Except δ α)) >>= f') := by
  intro w w' hw
  obtain ⟨hsame, hafter⟩ := h w w' hw
  rw [outcome_bind_run, outcome_bind_run, ← hsame]
  exact hf _ _ _ hafter

theorem settled {e e' : Evaluation α} (h : Lockstep R e e') :
    Lockstep R (Run.settled e) (Run.settled e') := by
  refine h.bind_run fun r => ?_
  rcases r with (f | _) | v
  · exact .pure _
  · exact .throw _
  · exact .pure _

theorem sift {step step' : α → Evaluation (Option β)} {as : List α}
    (hstep : ∀ a ∈ as, Lockstep R (step a) (step' a)) :
    Lockstep R (RowQuery.sift step as) (RowQuery.sift step' as) := by
  induction as with
  | nil => exact .pure _
  | cons a rest ih =>
    obtain ⟨ha, hrest⟩ := List.forall_mem_cons.mp hstep
    exact ha.bind fun _ => (ih hrest).bind fun _ => .pure _

theorem keepIf {test test' : α → Evaluation Bool} {a : α} (h : Lockstep R (test a) (test' a)) :
    Lockstep R (RowQuery.keepIf test a) (RowQuery.keepIf test' a) := h.bind fun _ => .pure _

/-- Where the run on the right succeeds the one on the left has succeeded alike. -/
theorem exists_outcome_left (h : Lockstep R m m') {w w' w₁' : World} (hw : R w w') {a : α}
    (hout' : outcome m' w' = (.ok a, w₁')) : ∃ w₁, outcome m w = (.ok a, w₁) ∧ R w₁ w₁' := by
  obtain ⟨hsame, hafter⟩ := h w w' hw
  rw [hout'] at hsame hafter
  exact ⟨(outcome m w).2, Prod.ext hsame rfl, hafter⟩

end Lockstep

/-! ## Contexts -/

/-- A relation between worlds that have done the same but for what loaders were asked, under which
lookups of these names go in lockstep. -/
structure Coupling (c c' : Context) (names : List String) (R : World → World → Prop) : Prop where
  invocations : ∀ {w w'}, R w w' → w.invocations = w'.invocations
  submissions : ∀ {w w'}, R w w' → w.submissions = w'.submissions
  poolStarted : ∀ {w w'}, R w w' → w.poolStarted = w'.poolStarted
  /-- It says nothing else about what was done. -/
  update : ∀ {w w'}, R w w' → ∀ invocations submissions poolStarted,
    R { w with invocations, submissions, poolStarted }
      { w' with invocations, submissions, poolStarted }
  lookup : ∀ name ∈ names, Lockstep R (c.get? name) (c'.get? name)

/-- The row has bound each of these names, unless it is one of the others. -/
def Row.Covers (row : Row) (others names : List String) : Prop :=
  ∀ name ∈ names, (row.get? name).isSome ∨ name ∈ others

theorem Row.covers_append {row : Row} {others names names' : List String} :
    row.Covers others (names ++ names') ↔ row.Covers others names ∧ row.Covers others names' :=
  List.forall_mem_append

/-! ## Expressions -/

namespace Coupling

variable {host : Host} {c c' : Context} {row : Row} {others : List String}
  {R : World → World → Prop}

theorem operator {α : Type} (outcome : Except Mismatch α) :
    Lockstep R (Scope.operator outcome) (Scope.operator outcome) := by
  unfold Scope.operator
  split
  · exact .pure _
  · exact .throw _

theorem lookupName (k : Coupling c c' others R) {name : String}
    (h : (row.get? name).isSome ∨ name ∈ others) :
    Lockstep R (Scope.lookup ⟨host, c, row⟩ name) (Scope.lookup ⟨host, c', row⟩ name) := by
  unfold Scope.lookup
  dsimp only
  split
  · exact .pure _
  · next hnone =>
    have hother : name ∈ others := h.resolve_left fun hsome => by
      rw [hnone] at hsome
      cases hsome
    refine (k.lookup name hother).bind fun answer => ?_
    split
    · exact .pure _
    · exact .throw _

theorem offers (k : Coupling c c' others R) (target : Handle) (operation : String) (arity : Nat) :
    Lockstep R (Scope.offers ⟨host, c, row⟩ target operation arity)
      (Scope.offers ⟨host, c', row⟩ target operation arity) := by
  intro w w' hw
  rw [Scope.outcome_offers, Scope.outcome_offers, k.invocations hw]
  exact ⟨rfl, hw⟩

theorem invoke (k : Coupling c c' others R) (target : Handle) (operation : String)
    (arguments : List Value) :
    Lockstep R (Scope.invoke ⟨host, c, row⟩ target operation arguments)
      (Scope.invoke ⟨host, c', row⟩ target operation arguments) := by
  intro w w' hw
  unfold Scope.invoke
  rw [outcome_bind_ok (outcome_get w), outcome_bind_ok (outcome_get w')]
  dsimp only
  rw [k.invocations hw]
  have hafter : ∀ calls, R { w with invocations := calls } { w' with invocations := calls } := by
    intro calls
    rw [k.submissions hw, k.poolStarted hw]
    exact k.update hw calls w'.submissions w'.poolStarted
  cases ((host.capability target).invoke w'.invocations operation arguments).result <;>
    exact ⟨rfl, hafter _⟩

theorem property (k : Coupling c c' others R) (v : Value) (name walked : String) :
    Lockstep R (Scope.property ⟨host, c, row⟩ v name walked)
      (Scope.property ⟨host, c', row⟩ v name walked) := by
  unfold Scope.property
  split
  · exact .pure _
  · refine (k.offers _ _ _).bind fun offered => ?_
    split
    · exact k.invoke _ _ _
    · refine (k.offers _ _ _).bind fun offered => ?_
      split
      · exact k.invoke _ _ _
      · exact .throw _
  · exact .throw _

theorem walk (k : Coupling c c' others R) (segments : List Segment) : ∀ walked v,
    Lockstep R (Scope.walk ⟨host, c, row⟩ walked v segments)
      (Scope.walk ⟨host, c', row⟩ walked v segments) := by
  induction segments with
  | nil => exact fun _ _ => .pure _
  | cons segment rest ih =>
    intro walked v
    unfold Scope.walk
    split
    · split
      · exact .pure _
      · exact .throw _
    · refine (k.property _ _ _).bind fun v => ?_
      split
      · exact .pure _
      · exact ih _ _

mutual

/-- An expression goes in lockstep if its names are bound in the row or looked up in lockstep. -/
theorem evaluate (k : Coupling c c' others R) : ∀ e : Expr, row.Covers others e.names →
    Lockstep R (Scope.evaluate ⟨host, c, row⟩ e) (Scope.evaluate ⟨host, c', row⟩ e)
  | .literal _, _ => .pure _
  | .variable _, h => k.lookupName (h _ List.mem_cons_self)
  | .path base segments, h => (k.evaluate base h).bind fun _ => k.walk segments _ _
  | .add left right, h =>
    (k.evaluate left (Row.covers_append.mp h).1).bind fun _ =>
      (k.evaluate right (Row.covers_append.mp h).2).bind fun _ => operator _
  | .compare _ left right, h =>
    (k.evaluate left (Row.covers_append.mp h).1).bind fun _ =>
      (k.evaluate right (Row.covers_append.mp h).2).bind fun _ => (operator _).bind fun _ => .pure _
  | .and left right, h => by
    obtain ⟨hleft, hright⟩ := Row.covers_append.mp h
    refine (k.evaluate left hleft).bind fun _ => (operator _).bind fun b => ?_
    cases b with
    | false => exact .pure _
    | true => exact (k.evaluate right hright).bind fun _ => (operator _).bind fun _ => .pure _
  | .or left right, h => by
    obtain ⟨hleft, hright⟩ := Row.covers_append.mp h
    refine (k.evaluate left hleft).bind fun _ => (operator _).bind fun b => ?_
    cases b with
    | true => exact .pure _
    | false => exact (k.evaluate right hright).bind fun _ => (operator _).bind fun _ => .pure _
  | .not operand, h => (k.evaluate operand h).bind fun _ => (operator _).bind fun _ => .pure _
  | .call target operation arguments, h => by
    obtain ⟨htarget, harguments⟩ := Row.covers_append.mp h
    refine (k.evaluate target htarget).bind fun v => ?_
    cases v with
    | capability handle =>
      refine (k.offers _ _ _).bind fun offered => ?_
      split
      · exact (k.evaluateAll arguments harguments).bind fun _ => k.invoke _ _ _
      · exact .throw _
    | _ => exact .throw _

theorem evaluateAll (k : Coupling c c' others R) : ∀ es : List Expr,
    row.Covers others (Expr.namesAll es) →
    Lockstep R (Scope.evaluateAll ⟨host, c, row⟩ es) (Scope.evaluateAll ⟨host, c', row⟩ es)
  | [], _ => .pure _
  | e :: rest, h =>
    (k.evaluate e (Row.covers_append.mp h).1).bind fun _ =>
      (k.evaluateAll rest (Row.covers_append.mp h).2).bind fun _ => .pure _

end

theorem satisfies (k : Coupling c c' others R) (r : Restriction) (h : row.Covers others r.names) :
    Lockstep R (Scope.satisfies ⟨host, c, row⟩ r) (Scope.satisfies ⟨host, c', row⟩ r) := by
  induction r with
  | compare op left right =>
    obtain ⟨hleft, hright⟩ := Row.covers_append.mp h
    exact (k.evaluate left hleft).bind fun _ => (k.evaluate right hright).bind fun _ => operator _
  | and left right ihl ihr =>
    obtain ⟨hleft, hright⟩ := Row.covers_append.mp h
    refine (ihl hleft).bind fun met => ?_
    cases met with
    | true => exact ihr hright
    | false => exact .pure _
  | or left right ihl ihr =>
    obtain ⟨hleft, hright⟩ := Row.covers_append.mp h
    refine (ihl hleft).bind fun met => ?_
    cases met with
    | true => exact .pure _
    | false => exact ihr hright
  | not operand ih => exact (ih h).bind fun _ => .pure _
  | holds e => exact (k.evaluate e h).bind fun _ => operator _

theorem projectOnto (k : Coupling c c' others R) (p : Projection) :
    row.Covers others (p.flatMap fun field => field.2.names) → ∀ object,
    Lockstep R (Scope.projectOnto ⟨host, c, row⟩ object p)
      (Scope.projectOnto ⟨host, c', row⟩ object p) := by
  induction p with
  | nil => exact fun _ _ => .pure _
  | cons field rest ih =>
    intro h object
    obtain ⟨hfield, hrest⟩ := Row.covers_append.mp h
    exact (k.evaluate field.2 hfield).bind fun _ => ih hrest _

theorem passes (k : Coupling c c' others R) (guards : List Expr)
    (h : row.Covers others (guards.flatMap Expr.names)) :
    Lockstep R (JoinGroup.passes ⟨host, c, row⟩ guards)
      (JoinGroup.passes ⟨host, c', row⟩ guards) := by
  induction guards with
  | nil => exact .pure _
  | cons guard rest ih =>
    obtain ⟨hguard, hrest⟩ := Row.covers_append.mp h
    unfold JoinGroup.passes
    refine (k.evaluate guard hguard).bind fun v => ?_
    split
    · exact .pure _
    · exact .pure _
    · exact ih hrest

theorem evaluateRow (k : Coupling c c' others R) (joins : List Join)
    (h : row.Covers others (joins.flatMap fun join => join.expr.names)) :
    Lockstep R (JoinGroup.evaluateRow ⟨host, c, row⟩ joins)
      (JoinGroup.evaluateRow ⟨host, c', row⟩ joins) := by
  induction joins with
  | nil => exact .pure _
  | cons join rest ih =>
    obtain ⟨hjoin, hrest⟩ := Row.covers_append.mp h
    exact (k.evaluate join.expr hjoin).settled.bind fun _ => (ih hrest).bind fun _ => .pure _

end Coupling
end RowQuery
