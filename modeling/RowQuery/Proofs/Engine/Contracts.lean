import RowQuery.Proofs.Engine.Stages
import RowQuery.Proofs.Evaluation.Contracts
import RowQuery.Proofs.Join.Failures

/-!
# Contracts of queries

A query does nothing to the host but evaluate its expressions, in every stage and on every executor,
and so it keeps to the contracts that they keep to (`Contract.executes_execute`). The faults of a
group are collected in slots on the way and reported at its end; a slot therefore carries with it that
its fault may be reported, until the slots are settled (`Contract.Settles`). A task without an outcome
is reported as lost: either the contract allows that, or executors run all tasks and no loader may
take one along (`Contract.Spares`).
-/

set_option autoImplicit false

namespace RowQuery

open Run

/-! ## Executions -/

/-- The faults that are reported. -/
def QueryError.faults : QueryError → List Fault
  | .fault f => [f]
  | .join failures => failures.map RowFailure.fault

def Halt.Meets (k : Contract) : Halt → Prop
  | .error e => ∀ f ∈ e.faults, k.fault f
  | .loaderPanic => k.breakdown

theorem Stop.Meets.toHalt {k : Contract} {stop : Stop} (h : stop.Meets k) : stop.toHalt.Meets k := by
  cases stop with
  | fault f =>
    intro f' hf'
    rw [List.mem_singleton.mp hf']
    exact h
  | loaderPanic => exact h

namespace Contract

/-- Started when the contract is in force, the execution keeps to it and its result has the
property. -/
abbrev Executes (k : Contract) {α : Type} (A : α → Prop) (m : Execution α) (w : World) : Prop :=
  k.since <+: w.invocations → Abides k.call A (Halt.Meets k) m w

/-- What is in the slot may be reported. -/
def Settles (k : Contract) : JoinGroup.Slot → Prop
  | some (.ok _) => True
  | some (.error f) => k.fault f
  | none => ∀ aliasName, k.fault (.invalidQuery (.lostTask aliasName))

variable {k : Contract} {α β : Type} {A : α → Prop} {B : β → Prop} {w : World}

theorem executes_pure {a : α} (h : A a) (w : World) : k.Executes A (pure a : Execution α) w :=
  fun _ => .pure h w

theorem executes_throw {halt : Halt} (h : halt.Meets k) (w : World) :
    k.Executes A (throw halt : Execution α) w :=
  fun _ => .throw h w

theorem executes_abort {f : Fault} (h : k.fault f) (w : World) :
    k.Executes A (Run.abort (.fault f)) w := by
  apply executes_throw
  intro f' hf'
  rw [List.mem_singleton.mp hf']
  exact h

theorem Executes.bind {m : Execution α} {f : α → Execution β} (hm : k.Executes A m w)
    (hf : ∀ a w', outcome m w = (.ok a, w') → A a → k.Executes B (f a) w') :
    k.Executes B (m >>= f) w :=
  fun hw => Abides.bind (hm hw) fun a w' hout ha => hf a w' hout ha (hw.trans ((hm hw).grown hout))

/-- The world is looked at. -/
theorem Executes.bind_get {f : World → Execution β} (h : k.Executes B (f w) w) :
    k.Executes B ((get : Execution World) >>= f) w := by
  intro hw
  obtain ⟨hcalled, hok, herror⟩ := h hw
  rw [← outcome_bind_ok (outcome_get w)] at hcalled hok herror
  exact ⟨hcalled, hok, herror⟩

namespace Evaluates

theorem evaluated {e : Evaluation α} (h : k.Evaluates e w) :
    k.Executes (fun _ => True) (Run.evaluated e) w := by
  intro hw
  have h := h hw
  refine ⟨h.called, fun _ _ => trivial, fun halt hhalt => ?_⟩
  rw [outcome_evaluated] at hhalt
  cases hr : (outcome e w).1 with
  | ok a =>
    rw [hr] at hhalt
    cases hhalt
  | error stop =>
    rw [hr] at hhalt
    cases hhalt
    exact (h.error stop hr).toHalt

/-- A step that goes on whatever came of the evaluation before. -/
theorem bind_run {e : Evaluation α} {f : Except Stop α → Execution β} (h : k.Evaluates e w)
    (hf : ∀ r, (∀ stop, r = .error stop → stop.Meets k) → k.Executes B (f r) (outcome e w).2) :
    k.Executes B ((liftM (ExceptT.run e : StateM World _) : Run Halt (Except Stop α)) >>= f) w := by
  intro hw
  have h := h hw
  obtain ⟨hcalled, hok, herror⟩ := hf _ h.error (hw.trans h.called.grown)
  exact ⟨h.called.trans hcalled, hok, herror⟩

theorem settled {e : Evaluation Value} (h : k.Evaluates e w) :
    k.Executes (fun r => k.Settles (some r)) (Run.settled e) w := by
  apply h.bind_run
  intro r herror
  rcases r with (f | _) | v
  · apply executes_pure
    exact herror _ rfl
  · apply executes_throw
    exact herror _ rfl
  · exact executes_pure trivial _

theorem sift {step : α → Evaluation (Option β)} (hstep : ∀ a w, k.Evaluates (step a) w)
    (as : List α) : ∀ w, k.Evaluates (RowQuery.sift step as) w := by
  induction as with
  | nil =>
    intro w
    exact evaluates_pure [] w
  | cons a rest ih =>
    intro w
    apply (hstep a w).bind
    intro got w₁ _
    apply (ih w₁).bind
    intro kept w₂ _
    exact evaluates_pure _ w₂

theorem keepIf {test : α → Evaluation Bool} (htest : ∀ a w, k.Evaluates (test a) w) (a : α)
    (w : World) : k.Evaluates (RowQuery.keepIf test a) w := by
  apply (htest a w).bind
  intro passed w₁ _
  exact evaluates_pure _ w₁

end Evaluates
end Contract

/-! ## A group -/

/-- The parts of the expressions of a group. -/
def JoinGroup.parts (g : JoinGroup) : List Expr :=
  g.guards.flatMap Expr.parts ++ g.siblings.flatMap fun join => join.expr.parts

/-- The parts of the expressions of a query. -/
def Query.parts (q : Query) : List Expr :=
  q.groups.flatMap JoinGroup.parts ++ (q.restriction.toList.flatMap Restriction.parts ++
    q.projection.flatMap fun field => field.2.parts)

theorem exists_of_mem_zipWith {α β γ : Type} {f : α → β → γ} {as : List α} {bs : List β} {x : γ}
    (h : x ∈ List.zipWith f as bs) : ∃ a b, a ∈ as ∧ b ∈ bs ∧ f a b = x := by
  rw [← List.map_uncurry_zip_eq_zipWith] at h
  obtain ⟨⟨a, b⟩, hmem, heq⟩ := List.mem_map.mp h
  exact ⟨a, b, (List.of_mem_zip hmem).1, (List.of_mem_zip hmem).2, heq⟩

namespace Contract

open JoinGroup

/-- The contract allows tasks to be lost, or else no task is: executors run them all, which is the
last condition, and loaders do not break down in them. -/
def Spares (k : Contract) (runs : Prop) : Prop :=
  (∀ aliasName, k.fault (.invalidQuery (.lostTask aliasName))) ∨ ¬k.breakdown ∧ runs

theorem Spares.imp {k : Contract} {runs runs' : Prop} (h : k.Spares runs) (himp : runs → runs') :
    k.Spares runs' :=
  Or.imp_right (And.imp_right himp) h

/-- The outcomes so far, when these cells have been evaluated. If loaders do not break down, each of
the cells has one. -/
structure Records (k : Contract) (g : JoinGroup) (rows : List Row) (cells : List Cell)
    (outcomes : Outcomes) : Prop where
  settles : ∀ entry ∈ outcomes, k.Settles (some entry.2)
  complete : ¬k.breakdown → ∀ cell ∈ cells, cell.row < rows.length →
    cell.sibling < g.siblings.length → ∃ r, (cell, r) ∈ outcomes

variable {k : Contract} {g : JoinGroup} {rows : List Row} {cells : List Cell} {outcomes : Outcomes}

theorem records_nil : k.Records g rows [] [] where
  settles _ hentry := by cases hentry
  complete _ _ hcell := by cases hcell

theorem Records.record (h : k.Records g rows cells outcomes) {cell : Cell} {r : Except Fault Value}
    (hr : k.Settles (some r)) : k.Records g rows (cells ++ [cell]) ((cell, r) :: outcomes) where
  settles := List.forall_mem_cons.mpr ⟨hr, h.settles⟩
  complete hbreakdown other hother hrow hsibling := by
    rcases List.mem_append.mp hother with hother | hother
    · obtain ⟨r', hr'⟩ := h.complete hbreakdown other hother hrow hsibling
      exact ⟨r', List.mem_cons_of_mem _ hr'⟩
    · cases List.mem_singleton.mp hother
      exact ⟨r, List.mem_cons_self⟩

/-- A cell that no outcome is asked of. -/
theorem Records.pass (h : k.Records g rows cells outcomes) {cell : Cell}
    (hcell : k.breakdown ∨ ¬(cell.row < rows.length ∧ cell.sibling < g.siblings.length)) :
    k.Records g rows (cells ++ [cell]) outcomes where
  settles := h.settles
  complete hbreakdown other hother hrow hsibling := by
    rcases List.mem_append.mp hother with hother | hother
    · exact h.complete hbreakdown other hother hrow hsibling
    · cases List.mem_singleton.mp hother
      exact absurd ⟨hrow, hsibling⟩ (hcell.resolve_left hbreakdown)

section

variable {env : Environment} {c : Context} {parts : List Expr} {w : World}
  (h : ∀ row, k.Admits (scope env c row) parts)

include h

theorem evaluates_applyGuards {guards : List Expr} (hparts : guards.flatMap Expr.parts ⊆ parts)
    (rows : List Row) (w : World) : k.Evaluates (applyGuards env c guards rows) w := by
  rw [applyGuards_eq_sift]
  apply Evaluates.sift
  apply Evaluates.keepIf
  intro row w
  exact (h row).passes guards hparts w

theorem executes_evaluateRow {joins : List Join}
    (hparts : (joins.flatMap fun join => join.expr.parts) ⊆ parts) (row : Row) : ∀ w,
    k.Executes (∀ slot ∈ ·, k.Settles slot) (evaluateRow (scope env c row) joins) w := by
  induction joins with
  | nil =>
    intro w
    apply executes_pure
    intro slot hslot
    cases hslot
  | cons join rest ih =>
    intro w
    obtain ⟨hjoin, hrest⟩ := List.append_subset.mp hparts
    apply ((h row).evaluate join.expr hjoin w).settled.bind
    intro r w₁ _ hr
    apply (ih hrest w₁).bind
    intro slots w₂ _ hslots
    exact executes_pure (List.forall_mem_cons.mpr ⟨hr, hslots⟩) w₂

section

variable (hparts : (g.siblings.flatMap fun join => join.expr.parts) ⊆ parts)

include hparts

theorem executes_evaluateRows (rows : List Row) : ∀ w,
    k.Executes (∀ slots ∈ ·, ∀ slot ∈ slots, k.Settles slot) (evaluateRows env c g rows) w := by
  induction rows with
  | nil =>
    intro w
    apply executes_pure
    intro slots hslots
    cases hslots
  | cons row rest ih =>
    intro w
    apply (executes_evaluateRow h hparts row w).bind
    intro slots w₁ _ hslots
    apply (ih w₁).bind
    intro others w₂ _ hothers
    exact executes_pure (List.forall_mem_cons.mpr ⟨hslots, hothers⟩) w₂

theorem evaluates_cell {cell : Cell} {evaluation : Evaluation Value}
    (hcell : evaluateCell env c g rows cell = some evaluation) (w : World) :
    k.Evaluates evaluation w := by
  unfold evaluateCell at hcell
  split at hcell
  · next row join _ hjoin =>
    cases hcell
    apply (h row).evaluate
    intro e he
    exact hparts (List.mem_flatMap.mpr ⟨join, List.mem_of_getElem? hjoin, he⟩)
  · cases hcell

omit h hparts in
theorem out_of_range {cell : Cell} (hcell : evaluateCell env c g rows cell = none) :
    ¬(cell.row < rows.length ∧ cell.sibling < g.siblings.length) := by
  rintro ⟨hrow, hsibling⟩
  unfold evaluateCell at hcell
  rw [List.getElem?_eq_getElem hrow, List.getElem?_eq_getElem hsibling] at hcell
  cases hcell

theorem executes_perform (houtcomes : k.Records g rows cells outcomes) (effect : Effect)
    (w : World) : k.Executes (k.Records g rows (cells ++ effect.evaluated))
      (perform env c g rows outcomes effect) w := by
  cases effect with
  | nothing =>
    apply executes_pure
    rw [Effect.evaluated, List.append_nil]
    exact houtcomes
  | submit cell executor =>
    intro _
    refine ⟨.refl _, fun later hlater => ?_, fun _ herror => by cases herror⟩
    cases hlater
    rw [Effect.evaluated, List.append_nil]
    exact houtcomes
  | evaluate cell =>
    unfold perform
    dsimp only
    split
    · next hcell => exact executes_pure (houtcomes.pass (.inr (out_of_range hcell))) w
    · next evaluation hcell =>
      apply (evaluates_cell h hparts hcell w).settled.bind
      intro r w₁ _ hr
      exact executes_pure (houtcomes.record hr) w₁
  | work cell =>
    unfold perform
    dsimp only
    split
    · next hcell => exact executes_pure (houtcomes.pass (.inr (out_of_range hcell))) w
    · next evaluation hcell =>
      apply (evaluates_cell h hparts hcell w).bind_run
      intro r herror
      -- only a loader that breaks down leaves the cell without an outcome
      rcases r with (f | _) | v
      · exact executes_pure (houtcomes.record (r := .error f) (herror _ rfl)) _
      · exact executes_pure (houtcomes.pass (.inl (herror _ rfl))) _
      · exact executes_pure (houtcomes.record (r := .ok v) trivial) _

theorem executes_performAll (effects : List Effect) : ∀ {cells : List Cell} {outcomes : Outcomes},
    k.Records g rows cells outcomes → ∀ w,
      k.Executes (k.Records g rows (cells ++ effects.flatMap Effect.evaluated))
        (performAll env c g rows outcomes effects) w := by
  induction effects with
  | nil =>
    intro cells outcomes houtcomes w
    apply executes_pure
    rw [List.flatMap_nil, List.append_nil]
    exact houtcomes
  | cons effect rest ih =>
    intro cells outcomes houtcomes w
    apply (executes_perform h hparts houtcomes effect w).bind
    intro later w₁ _ hlater
    rw [List.flatMap_cons, ← List.append_assoc]
    exact ih hlater w₁

theorem executes_evaluateAlong (rows : List Row) {schedule : Schedule}
    (hspares : k.Spares (RunsEach ((g.progress rows).course schedule))) (w : World) :
    k.Executes (∀ slots ∈ ·, ∀ slot ∈ slots, k.Settles slot)
      (evaluateAlong env c g rows schedule) w := by
  apply (executes_performAll h hparts _ records_nil w).bind
  intro outcomes w₁ _ houtcomes
  apply executes_pure
  intro slots hslots slot hslot
  obtain ⟨i, hi, rfl⟩ := List.mem_map.mp hslots
  obtain ⟨j, hj, rfl⟩ := List.mem_map.mp hslot
  cases hlookup : List.lookup (Cell.mk i j) outcomes with
  | some r =>
    obtain ⟨before, after, hsplit, -⟩ := List.lookup_eq_some_iff.mp hlookup
    exact houtcomes.settles (⟨i, j⟩, r) (by rw [hsplit]; simp)
  | none =>
    rcases hspares with hlost | ⟨hbreakdown, hruns⟩
    · exact hlost
    · -- its task was run, and so it has an outcome
      have hcell : (⟨i, j⟩ : Cell) ∈ (g.table rows).map Prod.fst := by
        rw [table_cells]
        exact List.mem_flatMap.mpr ⟨i, hi, List.mem_map_of_mem hj⟩
      have hevaluated := (Progress.evaluated_course_iff (g.permits_progress rows)
        (g.table_nodup rows) schedule hcell).mpr (hruns.not_dropped _)
      obtain ⟨r, hr⟩ := houtcomes.complete hbreakdown _ hevaluated (List.mem_range.mp hi)
        (List.mem_range.mp hj)
      exact absurd (List.lookup_eq_none_iff.mp hlookup _ hr) (by simp)

end

theorem executes_startPool (g : JoinGroup) (w : World) :
    k.Executes (fun _ => True) (startPool env g) w := by
  unfold startPool
  apply Executes.bind_get
  split
  · cases env.poolFailure with
    | some reason => exact executes_abort ((h ⟨0, []⟩).own _ rfl rfl) w
    | none => exact fun _ => ⟨.refl _, fun _ _ => trivial, fun _ herror => by cases herror⟩
  · exact executes_pure trivial w

theorem executes_evaluateKept (hparts : (g.siblings.flatMap fun join => join.expr.parts) ⊆ parts)
    (rows : List Row) (hspares : k.Spares (RunsEach ((g.progress rows).course
      (env.scheduler w.submissions (g.table rows))))) :
    k.Executes (∀ slots ∈ ·, ∀ slot ∈ slots, k.Settles slot) (g.evaluateKept env c rows) w := by
  unfold evaluateKept
  split
  · apply (executes_startPool h g w).bind
    intro u w₁ hstart _
    apply Executes.bind_get
    -- the scheduler is asked with what was submitted before the pool was started
    have hsubmissions : w₁.submissions = w.submissions := by
      rcases outcome_startPool_cases env g w with ⟨w', hout, -, -, hsame⟩ | ⟨e, hout⟩
      · cases hstart.symm.trans hout
        exact hsame
      · cases hstart.symm.trans hout
    rw [hsubmissions]
    exact executes_evaluateAlong h hparts rows hspares w₁
  · exact executes_evaluateRows h hparts rows w

omit h in
/-- What is reported of slots that settle, lost tasks among it. -/
theorem fault_of_mem_failures {slots : List (List Slot)}
    (hslots : ∀ row ∈ slots, ∀ slot ∈ row, k.Settles slot) {failure : RowFailure}
    (hmem : failure ∈ (g.bound rows slots).flatMap Prod.snd) : k.fault failure.fault := by
  obtain ⟨_, hbound, hfailure⟩ := List.mem_flatMap.mp hmem
  obtain ⟨row, rowSlots, -, hrow, rfl⟩ := exists_of_mem_zipWith hbound
  rw [bindRow_failures] at hfailure
  obtain ⟨join, slot, -, hslot, heq⟩ :=
    exists_of_mem_zipWith (List.reduceOption_mem_iff.mp hfailure)
  have hsettles := hslots rowSlots hrow slot hslot
  rcases slot with - | (f | v)
  · cases heq
    exact hsettles join.aliasName
  · cases heq
    exact hsettles
  · cases heq

omit h in
theorem executes_settle (g : JoinGroup) (rows : List Row) {slots : List (List Slot)}
    (hslots : ∀ row ∈ slots, ∀ slot ∈ row, k.Settles slot) (w : World) :
    k.Executes (fun _ => True) (g.settle rows slots) w := by
  unfold settle
  by_cases hnil : (g.bound rows slots).flatMap Prod.snd = []
  · rw [bind_eq_ok hnil]
    exact executes_pure trivial w
  · rw [bind_eq_error hnil]
    apply executes_throw
    intro f hf
    obtain ⟨failure, hfailure, rfl⟩ := List.mem_map.mp hf
    exact fault_of_mem_failures hslots (List.mem_mergeSort.mp hfailure)

theorem executes_group (hparts : g.parts ⊆ parts) (rows : List Row)
    (hspares : k.Spares (g.RunsTasks env c rows w)) :
    k.Executes (fun _ => True) (g.execute env c rows) w := by
  obtain ⟨hguards, hjoins⟩ := List.append_subset.mp hparts
  rw [JoinGroup.execute_eq]
  apply (evaluates_applyGuards h hguards rows w).evaluated.bind
  intro kept w₁ hkept _
  apply (executes_evaluateKept h hjoins kept (hspares.imp fun hruns => hruns kept w₁ hkept)).bind
  intro slots w₂ _ hslots
  exact executes_settle g kept hslots w₂

/-! ## A query -/

theorem executes_executeGroups {groups : List JoinGroup}
    (hparts : groups.flatMap JoinGroup.parts ⊆ parts) : ∀ (rows : List Row) (w : World),
    k.Spares (Query.GroupsRunTasks env c groups rows w) →
      k.Executes (fun _ => True) (Query.executeGroups env c groups rows) w := by
  induction groups with
  | nil =>
    intro rows w _
    exact executes_pure trivial w
  | cons g rest ih =>
    intro rows w hspares
    obtain ⟨hg, hrest⟩ := List.append_subset.mp hparts
    apply (executes_group h hg rows (hspares.imp And.left)).bind
    intro rows' w₁ hout _
    exact ih hrest rows' w₁ (hspares.imp fun hruns => hruns.2 rows' w₁ hout)

/-- A source that nothing is known of may have to be reported. -/
theorem executes_bindSource (source : Source) (w : World)
    (hundefined : (outcome (c.get? source.name) w).1 = .ok none →
      k.fault (.unresolved (.sourceUndefined source.name))) :
    k.Executes (fun _ => True) (Query.bindSource source c) w := by
  have hadmits := h ⟨0, []⟩
  have hget : k.Evaluates (c.get? source.name) w := hadmits.get? source.name w
  unfold Query.bindSource
  apply hget.evaluated.bind
  intro answer w₁ hanswer _
  split
  · apply executes_abort
    apply hundefined
    rw [outcome_evaluated] at hanswer
    rcases hout : (outcome (c.get? source.name) w).1 with e | found
    · rw [hout] at hanswer
      cases hanswer
    · rw [hout] at hanswer
      cases hanswer
      rfl
  · exact executes_abort (hadmits.own _ rfl rfl) w₁
  · exact executes_pure trivial w₁
  · exact executes_pure trivial w₁

theorem executes_selectRows (q : Query)
    (hparts : q.restriction.toList.flatMap Restriction.parts ⊆ parts) (rows : List Row)
    (w : World) : k.Executes (fun _ => True) (q.selectRows env c rows) w := by
  unfold Query.selectRows
  split
  · exact executes_pure trivial w
  · next r hr =>
    rw [hr, Option.toList_some, List.flatMap_singleton] at hparts
    rw [restrict_eq_sift]
    apply Evaluates.evaluated
    apply Evaluates.sift
    apply Evaluates.keepIf
    intro row w
    exact (h row).satisfies r hparts w

theorem executes_projectAll {projection : Projection}
    (hparts : (projection.flatMap fun field => field.2.parts) ⊆ parts) (rows : List Row)
    (w : World) :
    k.Executes (fun _ => True) (evaluated (Query.projectAll env c projection rows)) w := by
  rw [projectAll_eq_sift]
  apply Evaluates.evaluated
  apply Evaluates.sift
  intro row w
  have hproject : k.Evaluates ((scope env c row).project projection) w :=
    (h row).projectOnto projection hparts .empty w
  apply hproject.bind
  intro object w₁ _
  exact evaluates_pure _ w₁

/-- A query keeps to every contract that its expressions keep to, if tasks that are lost are allowed
or spared, and a source that is not found is allowed. -/
theorem executes_execute_of_source {q : Query} (hparts : q.parts ⊆ parts)
    (hspares : k.Spares (q.RunsTasks env c w))
    (hundefined : (outcome (c.get? q.source.name) w).1 = .ok none →
      k.fault (.unresolved (.sourceUndefined q.source.name))) :
    k.Executes (fun _ => True) (q.execute env c) w := by
  obtain ⟨hgroups, hrest⟩ := List.append_subset.mp hparts
  obtain ⟨hrestriction, hprojection⟩ := List.append_subset.mp hrest
  rw [Query.execute_eq]
  apply (executes_bindSource h q.source w hundefined).bind
  intro rows w₁ hsource _
  apply (executes_executeGroups h hgroups rows w₁
    (hspares.imp fun hruns => hruns rows w₁ hsource)).bind
  intro rows w₂ _ _
  apply (executes_selectRows h q hrestriction rows w₂).bind
  intro rows w₃ _ _
  exact executes_projectAll h hprojection rows w₃

end

/-- Every fault of the program's own allowed, only lost tasks are to be spared. -/
theorem executes_execute {env : Environment} {c : Context} {parts : List Expr} {w : World}
    (h : ∀ row, k.Fits (scope env c row) parts) {q : Query} (hparts : q.parts ⊆ parts)
    (hspares : k.Spares (q.RunsTasks env c w)) :
    k.Executes (fun _ => True) (q.execute env c) w :=
  executes_execute_of_source (fun row => (h row).admits) hparts hspares
    fun _ => (h ⟨0, []⟩).own _ rfl

end Contract
end RowQuery
