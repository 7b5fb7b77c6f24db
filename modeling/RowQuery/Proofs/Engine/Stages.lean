import RowQuery.Proofs.Engine.Concurrency
import RowQuery.Proofs.Evaluation.Elementwise

/-!
# A query as a list of stages

Behind its source a query is a list of stages: for each group its guards and then its dispatch, then
the restriction, then the projection. A stage is run over all rows before the next one is
(`through`), and each stage deals with every row by itself (`Stage.elementwise`); so does the whole
list, and what a query makes of its rows can be told from what it makes of each.

The stages are those of the sequential form of the query. `Query.outcome_execute_eq` says that the
query ends as they do, whatever its executors do in the meantime.
-/

set_option autoImplicit false

namespace RowQuery

open Run

/-- A step of a query behind its source. -/
inductive Stage where
  | guards (g : JoinGroup)
  | dispatch (g : JoinGroup)
  | restriction (r : Restriction)
  | projection (p : Projection)

namespace Stage

/-- The stage over all rows. The objects of a projection are left out here and the rows kept, so that
a stage goes from rows to rows. -/
def run (env : Environment) (c : Context) : Stage → List Row → Execution (List Row)
  | .guards g, rows => evaluated (JoinGroup.applyGuards env c g.guards rows)
  | .dispatch g, rows => do
    let slots ← JoinGroup.evaluateRows env c g rows
    g.settle rows slots
  | .restriction r, rows => evaluated (Query.restrict env c r rows)
  | .projection p, rows => do
    let _ ← evaluated (Query.projectAll env c p rows)
    return rows

end Stage

/-- The stages one after another, each over all rows the one before has left. -/
def through (env : Environment) (c : Context) : List Stage → List Row → Execution (List Row)
  | [], rows => return rows
  | stage :: rest, rows => do
    let rows ← stage.run env c rows
    through env c rest rows

namespace Query

/-- The stages that make rows of rows. -/
def rowStages (q : Query) : List Stage :=
  q.groups.flatMap (fun g => [.guards g, .dispatch g]) ++ q.restriction.toList.map .restriction

/-- All stages of the query behind its source. -/
def stages (q : Query) : List Stage := q.rowStages ++ [.projection q.projection]

/-- The query from its rows on. -/
def fromRows (env : Environment) (c : Context) (q : Query) (rows : List Row) :
    Execution (List Object) := do
  let rows ← through env c q.rowStages rows
  evaluated (projectAll env c q.projection rows)

end Query

variable {env : Environment} {c : Context}

theorem through_append (front back : List Stage) (rows : List Row) :
    through env c (front ++ back) rows = through env c front rows >>= through env c back := by
  induction front generalizing rows with
  | nil => rfl
  | cons stage rest ih =>
    show (stage.run env c rows >>= fun rows => through env c (rest ++ back) rows) =
      (stage.run env c rows >>= fun rows => through env c rest rows) >>= through env c back
    rw [bind_assoc]
    exact bind_congr fun rows => ih rows

/-! ## The sequential form -/

namespace JoinGroup

theorem evaluateRow_sequential (s : Scope) (joins : List Join) :
    evaluateRow s (joins.map Join.sequential) = evaluateRow s joins := by
  induction joins with
  | nil => rfl
  | cons join rest ih =>
    rw [List.map_cons, evaluateRow, evaluateRow, ih]
    rfl

theorem evaluateRows_sequential (g : JoinGroup) (rows : List Row) :
    evaluateRows env c g.sequential rows = evaluateRows env c g rows := by
  induction rows with
  | nil => rfl
  | cons row rest ih =>
    rw [evaluateRows, evaluateRows, ih]
    unfold sequential
    rw [evaluateRow_sequential]

theorem settle_sequential (g : JoinGroup) (rows : List Row) (slots : List (List Slot)) :
    g.sequential.settle rows slots = g.settle rows slots := by
  unfold settle
  rw [bind_sequential]

theorem execute_sequential_through (g : JoinGroup) (rows : List Row) :
    g.sequential.execute env c rows = through env c [.guards g, .dispatch g] rows := by
  rw [execute_eq, guards_sequential]
  show _ = evaluated (applyGuards env c g.guards rows) >>= fun rows =>
    (evaluateRows env c g rows >>= fun slots => g.settle rows slots) >>= pure
  refine bind_congr fun kept => ?_
  unfold evaluateKept
  rw [isAsync_sequential, if_neg Bool.false_ne_true, evaluateRows_sequential, bind_pure]
  exact bind_congr fun slots => g.settle_sequential kept slots

end JoinGroup

namespace Query

theorem executeGroups_sequential (groups : List JoinGroup) (rows : List Row) :
    executeGroups env c (groups.map JoinGroup.sequential) rows =
      through env c (groups.flatMap fun g => [.guards g, .dispatch g]) rows := by
  induction groups generalizing rows with
  | nil => rfl
  | cons g rest ih =>
    rw [List.flatMap_cons, through_append, ← g.execute_sequential_through]
    exact bind_congr fun rows => ih rows

theorem sequential_execute_eq (q : Query) :
    q.sequential.execute env c = bindSource q.source c >>= q.fromRows env c := by
  rw [execute_eq]
  refine bind_congr fun rows => ?_
  unfold fromRows rowStages
  rw [through_append, bind_assoc]
  show executeGroups env c (q.groups.map JoinGroup.sequential) rows >>= _ = _
  rw [executeGroups_sequential]
  refine bind_congr fun rows => ?_
  unfold selectRows sequential
  dsimp only
  cases q.restriction with
  | none => rfl
  | some r =>
    show evaluated (restrict env c r rows) >>= _ =
      (evaluated (restrict env c r rows) >>= pure) >>= _
    rw [bind_pure]

/-! ## The source -/

/-- Binding the source makes no call. -/
theorem exists_steady_bindSource (hpure : c.IsPure) (source : Source) :
    ∃ r, Steady c (bindSource source c) r [] := by
  obtain ⟨answer, h⟩ := Context.outcome_getFrom hpure source.name c.layers [] rfl
  have hget : Steady c (evaluated (c.get? source.name)) (.ok answer) [] := by
    intro w hw
    obtain ⟨w', hout, hagree, hcalls⟩ := h w hw nofun
    refine ⟨w', ?_, hagree, hcalls.trans (List.append_nil _).symm⟩
    rw [outcome_evaluated]
    unfold Context.get?
    rw [hout]
    rfl
  cases answer with
  | none => exact ⟨_, hget.bind_ok (.throw _)⟩
  | some v =>
    cases v with
    | null => exact ⟨_, hget.bind_ok (.throw _)⟩
    | _ => exact ⟨_, hget.bind_ok (.pure _)⟩

end Query

/-! ## Each row by itself -/

theorem applyGuards_eq_sift (guards : List Expr) (rows : List Row) :
    JoinGroup.applyGuards env c guards rows =
      sift (keepIf fun row => JoinGroup.passes (JoinGroup.scope env c row) guards) rows := by
  induction rows with
  | nil => rfl
  | cons row rest ih => rw [JoinGroup.applyGuards, ih, sift_keepIf_cons]

theorem restrict_eq_sift (r : Restriction) (rows : List Row) :
    Query.restrict env c r rows =
      sift (keepIf fun row => (JoinGroup.scope env c row).satisfies r) rows := by
  induction rows with
  | nil => rfl
  | cons row rest ih => rw [Query.restrict, ih, sift_keepIf_cons]

theorem projectAll_eq_sift (p : Projection) (rows : List Row) :
    Query.projectAll env c p rows =
      sift (fun row => do return some (← (JoinGroup.scope env c row).project p)) rows := by
  induction rows with
  | nil => rfl
  | cons row rest ih =>
    rw [Query.projectAll, ih, sift, bind_assoc]
    refine bind_congr fun object => ?_
    rw [pure_bind]
    rfl

namespace JoinGroup

/-- The row with its siblings bound, and its failures. -/
def settledRow (m : Meaning env.host c) (g : JoinGroup) (row : Row) : Row × List RowFailure :=
  bindRow row g.siblings (g.siblings.map fun join => some (m.value row join.expr))

theorem bound_slots (m : Meaning env.host c) (g : JoinGroup) (rows : List Row) :
    g.bound rows (g.slots m rows) = rows.map (g.settledRow m) := by
  unfold bound slots
  rw [List.zipWith_map_right, List.zipWith_self]
  rfl

theorem failures_bound_slots (m : Meaning env.host c) (g : JoinGroup) (rows : List Row) :
    (g.bound rows (g.slots m rows)).flatMap Prod.snd =
      rows.flatMap fun row => (g.settledRow m row).2 := by
  rw [bound_slots, List.flatMap_map]

theorem steady_dispatch (m : Meaning env.host c) (g : JoinGroup) (rows : List Row) :
    Steady c ((Stage.dispatch g).run env c rows)
      ((g.bind rows (g.slots m rows)).mapError .error) (g.calls m rows) := by
  rw [← List.append_nil (g.calls m rows)]
  refine (steady_evaluateRows m g rows).bind_ok ?_
  unfold settle
  cases g.bind rows (g.slots m rows) with
  | ok out => exact .pure _
  | error e => exact .throw _

theorem answer_dispatch_of_settled (m : Meaning env.host c) (g : JoinGroup) {rows : List Row}
    (h : ∀ row ∈ rows, (g.settledRow m row).2 = []) :
    ((Stage.dispatch g).run env c rows).answer =
      .ok (rows.map fun row => (g.settledRow m row).1) := by
  have hnil := (failures_bound_slots m g rows).trans (List.flatMap_eq_nil_iff.mpr h)
  rw [(steady_dispatch m g rows).answer_eq, bind_eq_ok hnil, bound_slots, List.map_map]
  rfl

theorem answer_dispatch_of_failed (m : Meaning env.host c) (g : JoinGroup) {rows : List Row}
    (h : ¬∀ row ∈ rows, (g.settledRow m row).2 = []) :
    ((Stage.dispatch g).run env c rows).answer =
      .error (.error (.ofFailures (rows.flatMap fun row => (g.settledRow m row).2))) := by
  have hne : (g.bound rows (g.slots m rows)).flatMap Prod.snd ≠ [] := by
    rw [failures_bound_slots]
    exact fun hnil => h (List.flatMap_eq_nil_iff.mp hnil)
  rw [(steady_dispatch m g rows).answer_eq, bind_eq_error hne, failures_bound_slots]
  rfl

/-- A dispatch succeeds if no row has a failure. -/
theorem answer_dispatch_eq_ok_iff (m : Meaning env.host c) (g : JoinGroup) {rows out : List Row} :
    ((Stage.dispatch g).run env c rows).answer = .ok out ↔
      (∀ row ∈ rows, (g.settledRow m row).2 = []) ∧
        out = rows.map fun row => (g.settledRow m row).1 := by
  by_cases h : ∀ row ∈ rows, (g.settledRow m row).2 = []
  · rw [answer_dispatch_of_settled m g h, Except.ok.injEq, eq_comm]
    exact ⟨fun hout => ⟨h, hout⟩, fun hout => hout.2⟩
  · rw [answer_dispatch_of_failed m g h]
    refine ⟨fun hout => ?_, fun hout => absurd hout.1 h⟩
    cases hout

end JoinGroup

namespace Stage

theorem run_guards (g : JoinGroup) : (guards g).run env c = fun rows => evaluated
    (sift (keepIf fun row => JoinGroup.passes (JoinGroup.scope env c row) g.guards) rows) :=
  funext fun rows => congrArg evaluated (applyGuards_eq_sift g.guards rows)

theorem run_restriction (r : Restriction) : (restriction r).run env c = fun rows => evaluated
    (sift (keepIf fun row => (JoinGroup.scope env c row).satisfies r) rows) :=
  funext fun rows => congrArg evaluated (restrict_eq_sift r rows)

/-- The stage stops at the first row that fails. -/
def failsFast : Stage → Bool
  | .dispatch _ => false
  | _ => true

theorem failsFast_run {stage : Stage} (h : stage.failsFast) : FailsFast (stage.run env c) := by
  cases stage with
  | guards g =>
    rw [run_guards]
    exact failsFast_sift
  | dispatch g => cases h
  | restriction r =>
    rw [run_restriction]
    exact failsFast_sift
  | projection p =>
    have h : FailsFast fun rows => evaluated (Query.projectAll env c p rows) := by
      simp only [projectAll_eq_sift]
      exact failsFast_sift
    exact h.keep

theorem elementwise_dispatch (m : Meaning env.host c) (g : JoinGroup) :
    Elementwise c ((dispatch g).run env c) := by
  have hok : ∀ rows out, ((dispatch g).run env c rows).answer = .ok out ↔ _ :=
    fun rows out => g.answer_dispatch_eq_ok_iff m
  refine ⟨fun rows => (g.steady_dispatch m rows).firm, ?_, ?_, ?_⟩
  · exact (hok [] []).mpr ⟨nofun, rfl⟩
  · intro rows rows' out
    constructor
    · intro hout
      obtain ⟨hsettled, rfl⟩ := (hok _ _).mp hout
      obtain ⟨hfront, hback⟩ := List.forall_mem_append.mp hsettled
      exact ⟨_, _, (hok rows _).mpr ⟨hfront, rfl⟩, (hok rows' _).mpr ⟨hback, rfl⟩,
        List.map_append⟩
    · rintro ⟨front, back, hfront, hback, rfl⟩
      obtain ⟨hsettled, rfl⟩ := (hok rows _).mp hfront
      obtain ⟨hsettled', rfl⟩ := (hok rows' _).mp hback
      exact (hok _ _).mpr ⟨List.forall_mem_append.mpr ⟨hsettled, hsettled'⟩, List.map_append.symm⟩
  · intro row out hout
    obtain ⟨-, rfl⟩ := (hok _ _).mp hout
    exact Nat.le_refl 1

theorem elementwise (hhost : env.host.IsPure) (hpure : c.IsPure) (stage : Stage) :
    Elementwise c (stage.run env c) := by
  cases stage with
  | guards g =>
    rw [run_guards]
    exact elementwise_sift (isSteady_keepIf fun row =>
      JoinGroup.isSteady_passes (s := JoinGroup.scope env c row) hhost hpure _)
  | dispatch g =>
    obtain ⟨m⟩ := exists_meaning hhost hpure
    exact elementwise_dispatch m g
  | restriction r =>
    rw [run_restriction]
    exact elementwise_sift (isSteady_keepIf fun row =>
      Scope.isSteady_satisfies (s := JoinGroup.scope env c row) hhost hpure _)
  | projection p =>
    have hfirm := fun rows => (Query.isSteady_projectAll hhost hpure p rows).firm.evaluated
    refine (failsFast_run rfl).elementwise (fun rows => (hfirm rows).bind fun _ => .pure _) ?_
    intro row out hout
    -- whatever object is made of it, the row itself goes on
    obtain ⟨objects, -, hout⟩ := ((hfirm [row]).answer_bind_eq_ok fun _ => .pure _).mp hout
    cases hout
    exact Nat.le_refl 1

end Stage

section

variable (hhost : env.host.IsPure) (hpure : c.IsPure)

include hhost hpure

theorem elementwise_through (stages : List Stage) : Elementwise c (through env c stages) := by
  induction stages with
  | nil => exact .pure c
  | cons stage rest ih => exact (stage.elementwise hhost hpure).bind ih

namespace Query

theorem elementwise_fromRows (q : Query) : Elementwise c (q.fromRows env c) := by
  refine (elementwise_through hhost hpure q.rowStages).bind ?_
  simp only [projectAll_eq_sift]
  exact elementwise_sift fun row => .bind
    (Scope.isSteady_projectOnto (s := JoinGroup.scope env c row) hhost hpure q.projection _)
    fun _ => .pure _

/-! ## The query itself -/

/-- A query that runs its tasks ends as its stages do, and makes their calls in some order. -/
theorem outcome_execute_eq (hpool : env.poolFailure = none) (q : Query) {w : World}
    (hw : c.Agrees w) (hruns : q.RunsTasks env c w) :
    (outcome (q.execute env c) w).1 = (bindSource q.source c >>= q.fromRows env c).answer ∧
      ∃ made, made.Perm (bindSource q.source c >>= q.fromRows env c).calls ∧
        (outcome (q.execute env c) w).2.invocations = w.invocations ++ made := by
  obtain ⟨r, calls, hsteady, hfollows⟩ := follows_execute hhost hpure hpool q
  rw [sequential_execute_eq] at hsteady
  obtain ⟨made, hmade, w', hout, -, hcalls⟩ := hfollows w hw hruns
  rw [hsteady.answer_eq, hsteady.calls_eq, hout]
  exact ⟨rfl, made, hmade, hcalls⟩

end Query

end
end RowQuery
