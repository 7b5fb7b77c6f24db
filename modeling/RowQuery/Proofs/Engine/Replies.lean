import RowQuery.Proofs.Engine.Contracts
import RowQuery.Proofs.Evaluation.Replies

/-!
# Operations that break down in queries

A query is the same computation with hosts whose replies have the same results, in all of its stages
and on whatever executors (`Environment.SameResults.execute`), and so it cannot tell an operation that
breaks down from one that fails. Nor does a breakdown of the host go further than to a fault: as long
as loaders answer, a query comes to results or to an error, and a task that is run has an outcome
(`Contract.enduring`).
-/

set_option autoImplicit false

namespace RowQuery

open Run

/-- The environments differ in no more than what their hosts reply, not in the results of it. -/
structure Environment.SameResults (env env' : Environment) : Prop where
  host : env.host.SameResults env'.host
  scheduler : env.scheduler = env'.scheduler
  poolFailure : env.poolFailure = env'.poolFailure

/-- The environment whose operations fail where they broke down. -/
def Environment.tame (env : Environment) : Environment := { env with host := env.host.tame }

theorem Environment.tame_sameResults (env : Environment) : env.tame.SameResults env where
  host := env.host.tame_sameResults
  scheduler := rfl
  poolFailure := rfl

namespace Environment.SameResults

variable {env env' : Environment} (h : env.SameResults env') (c : Context)

include h

/-! ## A group -/

theorem applyGuards (guards : List Expr) (rows : List Row) :
    JoinGroup.applyGuards env c guards rows = JoinGroup.applyGuards env' c guards rows := by
  rw [applyGuards_eq_sift, applyGuards_eq_sift]
  simp only [JoinGroup.scope, h.host.passes]

theorem evaluateRows (g : JoinGroup) (rows : List Row) :
    JoinGroup.evaluateRows env c g rows = JoinGroup.evaluateRows env' c g rows := by
  induction rows with
  | nil => rfl
  | cons row rest ih => simp only [JoinGroup.evaluateRows, JoinGroup.scope, h.host.evaluateRow, ih]

theorem evaluateCell (g : JoinGroup) (rows : List Row) (cell : Cell) :
    JoinGroup.evaluateCell env c g rows cell = JoinGroup.evaluateCell env' c g rows cell := by
  simp only [JoinGroup.evaluateCell, JoinGroup.scope, h.host.evaluate]

theorem perform (g : JoinGroup) (rows : List Row) (outcomes : JoinGroup.Outcomes)
    (effect : Effect) : JoinGroup.perform env c g rows outcomes effect =
      JoinGroup.perform env' c g rows outcomes effect := by
  cases effect with
  | nothing => rfl
  | submit cell executor => rfl
  | evaluate cell => simp only [JoinGroup.perform, h.evaluateCell]
  | work cell => simp only [JoinGroup.perform, h.evaluateCell]

theorem performAll (g : JoinGroup) (rows : List Row) (effects : List Effect) : ∀ outcomes,
    JoinGroup.performAll env c g rows outcomes effects =
      JoinGroup.performAll env' c g rows outcomes effects := by
  induction effects with
  | nil =>
    intro outcomes
    rfl
  | cons effect rest ih =>
    intro outcomes
    simp only [JoinGroup.performAll, h.perform, ih]

theorem evaluateKept (g : JoinGroup) (rows : List Row) :
    g.evaluateKept env c rows = g.evaluateKept env' c rows := by
  simp only [JoinGroup.evaluateKept, JoinGroup.startPool, JoinGroup.evaluateAlong, h.scheduler,
    h.poolFailure, h.performAll, h.evaluateRows]

theorem executeGroup (g : JoinGroup) (rows : List Row) :
    g.execute env c rows = g.execute env' c rows := by
  simp only [JoinGroup.execute_eq, h.applyGuards, h.evaluateKept]

/-! ## A query -/

theorem executeGroups (groups : List JoinGroup) : ∀ rows,
    Query.executeGroups env c groups rows = Query.executeGroups env' c groups rows := by
  induction groups with
  | nil =>
    intro rows
    rfl
  | cons g rest ih =>
    intro rows
    simp only [Query.executeGroups, h.executeGroup, ih]

theorem restrict (r : Restriction) (rows : List Row) :
    Query.restrict env c r rows = Query.restrict env' c r rows := by
  rw [restrict_eq_sift, restrict_eq_sift]
  simp only [JoinGroup.scope, h.host.satisfies]

theorem projectAll (projection : Projection) (rows : List Row) :
    Query.projectAll env c projection rows = Query.projectAll env' c projection rows := by
  rw [projectAll_eq_sift, projectAll_eq_sift]
  simp only [JoinGroup.scope, Scope.project, h.host.projectOnto]

/-- A query is the same computation in either environment. -/
theorem execute (q : Query) : q.execute env c = q.execute env' c := by
  simp only [Query.execute_eq, Query.selectRows, h.executeGroups, h.restrict, h.projectAll]

end Environment.SameResults

/-! ## How far a breakdown goes -/

/-- Loaders do not break down, and these faults may be reported. -/
def Contract.enduring (fault : Fault → Prop) : Contract where
  since := []
  call _ _ := True
  fault := fault
  breakdown := False

theorem Contract.enduring_fits {s : Scope} {fault : Fault → Prop} (parts : List Expr)
    (hloaders : ∀ loader ∈ s.context.loaders, loader.AlwaysAnswers)
    (hfault : ∀ f, (∀ aliasName, f ≠ .invalidQuery (.lostTask aliasName)) → fault f) :
    (enduring fault).Fits s parts where
  call _ _ _ := trivial
  own f hf := by
    apply hfault
    intro aliasName heq
    rw [heq] at hf
    cases hf
  answer w i message _ _ := by
    apply hfault
    intro aliasName heq
    cases heq
  breakdown := by
    rintro ⟨loader, hmem, hnot⟩
    exact hnot (hloaders loader hmem)

namespace Query

variable {c : Context} (hloaders : ∀ loader ∈ c.loaders, loader.AlwaysAnswers)

include hloaders

/-- A query ends in results or in an error. -/
theorem settles_of_alwaysAnswers (env : Environment) (q : Query) (w : World) :
    ∃ r : Except QueryError (List Object),
      (outcome (q.execute env c) w).1 = r.mapError Halt.error := by
  have hfits : ∀ row, (Contract.enduring fun _ => True).Fits (JoinGroup.scope env c row) q.parts :=
    fun row => Contract.enduring_fits (s := JoinGroup.scope env c row) _ hloaders
      fun _ _ => trivial
  have hends := Contract.executes_execute hfits (w := w) (List.Subset.refl _)
    (.inl fun _ => trivial) List.nil_prefix
  cases hout : (outcome (q.execute env c) w).1 with
  | ok objects => exact ⟨.ok objects, rfl⟩
  | error halt =>
    cases halt with
    | error e => exact ⟨.error e, rfl⟩
    | loaderPanic => cases hends.error _ hout

/-- No task that is run is without an outcome. -/
theorem lostTask_not_mem_faults {env : Environment} {q : Query} {w : World}
    (hruns : q.RunsTasks env c w) {e : QueryError}
    (he : (outcome (q.execute env c) w).1 = .error (.error e)) (aliasName : String) :
    .invalidQuery (.lostTask aliasName) ∉ e.faults := by
  have hfits : ∀ row, (Contract.enduring fun f => ∀ aliasName,
      f ≠ .invalidQuery (.lostTask aliasName)).Fits (JoinGroup.scope env c row) q.parts :=
    fun row => Contract.enduring_fits (s := JoinGroup.scope env c row) _ hloaders fun _ hf => hf
  have hends := Contract.executes_execute hfits (List.Subset.refl _) (.inr ⟨id, hruns⟩)
    List.nil_prefix
  intro hmem
  exact hends.error _ he _ hmem aliasName rfl

omit hloaders

/-- An operation that breaks down is to a query what one is that fails with the text of the breakdown:
the same computation, in the results, the errors, the calls of the host and all else it leaves behind.
So a breakdown of the host ends no query that loaders do not end, and a task that is run has an
outcome in spite of it. -/
theorem execute_tame (env : Environment) (c : Context) :
    (∀ handle earlier operation arguments text,
      (env.tame.host.capability handle).invoke earlier operation arguments ≠ .panicked text) ∧
    (∀ q : Query, q.execute env.tame c = q.execute env c) ∧
    (∀ (row : Row) (e : Expr),
      (JoinGroup.scope env.tame c row).evaluate e = (JoinGroup.scope env c row).evaluate e) ∧
    ((∀ loader ∈ c.loaders, loader.AlwaysAnswers) → ∀ (q : Query) (w : World),
      (∃ r : Except QueryError (List Object),
        (outcome (q.execute env c) w).1 = r.mapError Halt.error) ∧
      (q.RunsTasks env c w → ∀ e, (outcome (q.execute env c) w).1 = .error (.error e) →
        ∀ aliasName, .invalidQuery (.lostTask aliasName) ∉ e.faults)) := by
  refine ⟨?_, ?_, ?_, ?_⟩
  · intro handle earlier operation arguments text
    exact Reply.tame_ne_panicked _ text
  · intro q
    exact env.tame_sameResults.execute c q
  · intro row e
    exact env.tame_sameResults.host.evaluate c row e
  · intro hloaders q w
    refine ⟨settles_of_alwaysAnswers hloaders env q w, ?_⟩
    intro hruns e he aliasName
    exact lostTask_not_mem_faults hloaders hruns he aliasName

/-- A getter that breaks down with no text, in a task, beside an operation that answers. -/
theorem execute_tame_ripeness :
    let env : Environment := { host := { capability := fun _ => ⟨fun name _ => name != "ripeness",
      fun _ operation _ => match operation with
        | "getRipeness" => .panicked none
        | _ => .returned (.bool true)⟩ } }
    let c : Context := { innermost := { values := ⟨[
      ("items", .array [.string "pear"]), ("api", .capability ⟨0, "api"⟩)]⟩ } }
    let q : Query := {
      source := ⟨"items", "x"⟩, restriction := none, projection := [("a", .variable "a")]
      groups := [⟨[
        ⟨"a", .path (.variable "api") [⟨"ripeness", false⟩], none, .async none none⟩,
        ⟨"b", .call (.variable "api") "likes" [.variable "x"], none, .sync⟩]⟩] }
    outcome (q.execute env.tame c) {} = outcome (q.execute env c) {} ∧
    (outcome (q.execute env c) {}).1 = .error (.error (.ofFailures [⟨0, "a",
      .invocation (.failed "api" "getRipeness" "panicked: operation panicked")⟩])) ∧
    q.RunsTasks env c {} ∧
    ∀ e, (outcome (q.execute env c) {}).1 = .error (.error e) →
      .invalidQuery (.lostTask "a") ∉ e.faults := by
  intro env c q
  have hruns : q.RunsTasks env c {} := by
    intro rows w hrows
    cases (rfl : outcome _ _ = (_, _)).symm.trans hrows
    refine ⟨?_, fun _ _ _ => trivial⟩
    intro kept w' hguards
    cases (rfl : outcome _ _ = (_, _)).symm.trans hguards
    decide +kernel
  obtain ⟨-, htame, -, hends⟩ := execute_tame env c
  have hloaders : ∀ loader ∈ c.loaders, loader.AlwaysAnswers := by
    intro loader hloader
    cases hloader
  refine ⟨congrArg (outcome · {}) (htame q), rfl, hruns, ?_⟩
  intro e he
  exact (hends hloaders q {}).2 hruns e he "a"

end Query
end RowQuery
