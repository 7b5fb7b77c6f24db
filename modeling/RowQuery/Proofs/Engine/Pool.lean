import RowQuery.Proofs.Engine.Concurrency
import RowQuery.Proofs.Evaluation.Lookups

/-!
# When the pool of an engine is started

The dispatch of a group starts the pool before it hands over its first task, if some sibling needs
it; nothing else starts it, and nothing else hands over tasks. So a pool that has been started has
been handed a task, unless the dispatch that started it was cut short (`JoinGroup.CutShort`): there
was no row to hand over a task for, or a loader broke down before that. `Job.runAll_poolStarted`
says this of any sequence of queries on one engine.

`Employs` is the account of one run, and it is closed under sequencing.
-/

set_option autoImplicit false

namespace RowQuery

open Run

/-! ## What a run has to do with executors -/

/-- Between the two worlds tasks were handed to executors, and the pool has been started behind them
just if it was before, if one of the tasks went to it, or if something else started it. -/
def Employs (otherwise : Prop) (w w' : World) : Prop :=
  ∃ made, w'.submissions = w.submissions ++ made ∧
    (w'.poolStarted = true ↔ w.poolStarted = true ∨ none ∈ made ∨ otherwise)

/-- The run has nothing to do with executors. -/
def Quiet {ε α : Type} (m : Run ε α) : Prop :=
  ∀ w, (outcome m w).2.submissions = w.submissions ∧
    (outcome m w).2.poolStarted = w.poolStarted

namespace Employs

variable {ε α β : Type} {p q : Prop} {w w₁ w₂ : World} {m : Run ε α} {f : α → Run ε β}

theorem of_eq (hsubmissions : w₁.submissions = w.submissions)
    (hstarted : w₁.poolStarted = w.poolStarted) : Employs False w w₁ :=
  ⟨[], by rw [hsubmissions, List.append_nil], by rw [hstarted]; simp⟩

theorem of_iff (h : Employs p w w₁) (hiff : p ↔ q) : Employs q w w₁ := propext hiff ▸ h

theorem trans (h : Employs p w w₁) (h' : Employs q w₁ w₂) : Employs (p ∨ q) w w₂ := by
  obtain ⟨made, hmade, hstarted⟩ := h
  obtain ⟨more, hmore, hstarted'⟩ := h'
  refine ⟨made ++ more, by rw [hmore, hmade, List.append_assoc], ?_⟩
  rw [hstarted', hstarted, List.mem_append]
  tauto

/-- What else may start the pool in a sequence is what may in its first step, or in the second where
the first one leads. -/
theorem bind {r : α → World → Prop} (hm : Employs p w (outcome m w).2)
    (hf : ∀ a w₁, outcome m w = (.ok a, w₁) → Employs (r a w₁) w₁ (outcome (f a) w₁).2) :
    Employs (p ∨ ∃ a w₁, outcome m w = (.ok a, w₁) ∧ r a w₁) w (outcome (m >>= f) w).2 := by
  rcases hout : outcome m w with ⟨e | a, w₁⟩
  · -- the second step is never come to
    rw [hout] at hm
    rw [outcome_bind_error hout]
    refine hm.of_iff ⟨.inl, ?_⟩
    rintro (hp | ⟨a, w', ⟨⟩, -⟩)
    exact hp
  · rw [hout] at hm
    rw [outcome_bind_ok hout]
    refine (hm.trans (hf a w₁ hout)).of_iff (or_congr_right ⟨fun h => ⟨a, w₁, rfl, h⟩, ?_⟩)
    rintro ⟨a', w', heq, h⟩
    cases heq
    exact h

end Employs

namespace Quiet

variable {ε α β : Type} {p : Prop} {w : World} {m : Run ε α} {f : α → Run ε β}

theorem pure (a : α) : Quiet (pure a : Run ε α) := fun _ => ⟨rfl, rfl⟩

theorem throw (e : ε) : Quiet (throw e : Run ε α) := fun _ => ⟨rfl, rfl⟩

theorem bind (hm : Quiet m) (hf : ∀ a, Quiet (f a)) : Quiet (m >>= f) := by
  intro w
  have hfirst := hm w
  rcases hout : outcome m w with ⟨e | a, w₁⟩
  · rw [hout] at hfirst
    rw [outcome_bind_error hout]
    exact hfirst
  · rw [hout] at hfirst
    rw [outcome_bind_ok hout]
    exact ⟨(hf a w₁).1.trans hfirst.1, (hf a w₁).2.trans hfirst.2⟩

theorem evaluated {e : Evaluation α} (h : Quiet e) : Quiet (Run.evaluated e) := h

/-- A step that goes on whatever came of a quiet run. -/
theorem bind_run {δ : Type} {e : Run δ α} {f : Except δ α → Run ε β} (h : Quiet e)
    (hf : ∀ r, Quiet (f r)) :
    Quiet ((liftM (ExceptT.run e : StateM World _) : Run ε (Except δ α)) >>= f) := by
  intro w
  rw [outcome_bind_run]
  exact ⟨(hf _ _).1.trans (h w).1, (hf _ _).2.trans (h w).2⟩

theorem settled {e : Evaluation α} (h : Quiet e) : Quiet (Run.settled e) := by
  refine h.bind_run fun r => ?_
  rcases r with (f | _) | v
  · exact .pure _
  · exact .throw _
  · exact .pure _

theorem employs (h : Quiet m) (w : World) : Employs False w (outcome m w).2 :=
  .of_eq (h w).1 (h w).2

/-- What else may start the pool in a sequence, where the first step is quiet. -/
theorem employs_bind {r : α → World → Prop} (hm : Quiet m)
    (hf : ∀ a w₁, outcome m w = (.ok a, w₁) → Employs (r a w₁) w₁ (outcome (f a) w₁).2) :
    Employs (∃ a w₁, outcome m w = (.ok a, w₁) ∧ r a w₁) w (outcome (m >>= f) w).2 :=
  ((hm.employs w).bind hf).of_iff ((by simp))

end Quiet

/-- What else may start the pool in a sequence, where the second step is quiet. -/
theorem Employs.bind_quiet {ε α β : Type} {p : Prop} {w : World} {m : Run ε α} {f : α → Run ε β}
    (hm : Employs p w (outcome m w).2) (hf : ∀ a, Quiet (f a)) :
    Employs p w (outcome (m >>= f) w).2 :=
  (hm.bind fun a w₁ _ => (hf a).employs w₁).of_iff (by simp)

theorem Context.quiet_get? (c : Context) (name : String) : Quiet (c.get? name) := fun w =>
  ⟨(c.sameDeeds_get? name w).submissions, (c.sameDeeds_get? name w).poolStarted⟩

/-- Evaluating has nothing to do with executors. -/
theorem evaluationClosed_quiet (host : Host) (c : Context) : EvaluationClosed host c Quiet where
  pure := .pure
  fail _ := .throw _
  bind := .bind
  get? := c.quiet_get?
  offers _ _ _ _ _ := ⟨rfl, rfl⟩
  invoke row target operation arguments w := by
    rw [Scope.outcome_invoke_at]
    exact ⟨rfl, rfl⟩

/-! ## The dispatch of a group -/

/-- The executor that is handed a task, if there is to be one. -/
def Placement.executors : Placement → List (Option Nat)
  | .inline => []
  | .task executor => [executor]

/-- The executors that are handed tasks, in order. -/
def Effect.executors (effects : List Effect) : List (Option Nat) :=
  (effects.flatMap Effect.dispatched).flatMap (·.2.executors)

namespace JoinGroup

variable {env : Environment} {c : Context} (g : JoinGroup)

/-- Some sibling hands its tasks to the pool of the engine. -/
def UsesPool : Prop := ∃ join ∈ g.siblings, placement join = .task none

theorem UsesPool.isAsync (h : g.UsesPool) : g.isAsync = true := by
  obtain ⟨join, hjoin, hplacement⟩ := h
  refine List.any_eq_true.mpr ⟨join, hjoin, ?_⟩
  unfold placement at hplacement
  cases hdispatch : join.dispatch with
  | sync => rw [hdispatch] at hplacement; cases hplacement
  | async limit executor => rfl

/-- The table has a task for the pool just if there is a row and the pool is used. -/
theorem none_mem_executors_table (rows : List Row) :
    none ∈ (g.table rows).flatMap (·.2.executors) ↔ rows ≠ [] ∧ g.UsesPool := by
  have hexecutor (placement : Placement) :
      none ∈ placement.executors ↔ placement = .task none := by
    cases placement <;> simp [Placement.executors, eq_comm]
  simp only [table, List.mem_flatMap, List.mem_range, List.mem_mapIdx, hexecutor]
  constructor
  · rintro ⟨entry, ⟨i, hi, j, hj, rfl⟩, hplacement⟩
    exact ⟨List.ne_nil_of_length_pos (Nat.zero_lt_of_lt hi), _, List.getElem_mem hj, hplacement⟩
  · rintro ⟨hrows, join, hjoin, hplacement⟩
    obtain ⟨j, hj, rfl⟩ := List.mem_iff_getElem.mp hjoin
    exact ⟨_, ⟨0, List.length_pos_of_ne_nil hrows, j, hj, rfl⟩, hplacement⟩

/-- The pool is started unless it has been or cannot be. -/
theorem outcome_startPool_of_usesPool (env : Environment) (h : g.UsesPool) (w : World) :
    outcome (startPool env g) w =
      if w.poolStarted = true then (.ok (), w)
      else match env.poolFailure with
        | some reason => (.error (.error (.fault (.pool reason))), w)
        | none => (.ok (), { w with poolStarted := true }) := by
  have hneeded : g.siblings.any (fun join => placement join == .task none) = true := by
    obtain ⟨join, hjoin, hplacement⟩ := h
    exact List.any_eq_true.mpr ⟨join, hjoin, beq_iff_eq.mpr hplacement⟩
  unfold startPool
  rw [outcome_bind_ok (outcome_get w), hneeded]
  cases w.poolStarted with
  | true => rfl
  | false => cases env.poolFailure <;> rfl

theorem outcome_startPool_of_not_usesPool (env : Environment) (h : ¬g.UsesPool) (w : World) :
    outcome (startPool env g) w = (.ok (), w) := by
  have hneeded : g.siblings.any (fun join => placement join == .task none) = false :=
    List.any_eq_false.mpr fun join hjoin hplacement =>
      h ⟨join, hjoin, beq_iff_eq.mp hplacement⟩
  unfold startPool
  rw [outcome_bind_ok (outcome_get w), hneeded]
  rfl

end JoinGroup

/-! ## What effects hand over -/

/-- From this world the run hands tasks to these executors, one after another, and leaves the pool as
it is. Only a loader that breaks down keeps it from handing over all of them. -/
def HandsOver {α : Type} (m : Execution α) (executors : List (Option Nat)) (w : World) : Prop :=
  ∃ made, (outcome m w).2.submissions = w.submissions ++ made ∧
    (outcome m w).2.poolStarted = w.poolStarted ∧
    ((∃ a, (outcome m w).1 = .ok a) ∧ made = executors ∨
      (outcome m w).1 = .error .loaderPanic ∧ made <+: executors)

namespace HandsOver

variable {α β : Type} {m : Execution α} {f : α → Execution β} {w : World}
  {executors more : List (Option Nat)}

theorem pure (a : α) (w : World) : HandsOver (pure a) [] w :=
  ⟨[], (List.append_nil _).symm, rfl, .inl ⟨⟨a, rfl⟩, rfl⟩⟩

theorem bind (hm : HandsOver m executors w)
    (hf : ∀ a w₁, outcome m w = (.ok a, w₁) → HandsOver (f a) more w₁) :
    HandsOver (m >>= f) (executors ++ more) w := by
  obtain ⟨made, hmade, hstarted, ⟨⟨a, ha⟩, rfl⟩ | ⟨hpanic, hfront⟩⟩ := hm
  · obtain ⟨made', hmade', hstarted', hend⟩ := hf a _ (Prod.ext ha rfl)
    unfold HandsOver
    rw [outcome_bind_ok (Prod.ext ha rfl)]
    refine ⟨made ++ made', ?_, hstarted'.trans hstarted, ?_⟩
    · rw [hmade', hmade, List.append_assoc]
    · exact hend.imp (And.imp_right (congrArg _))
        (And.imp_right (List.prefix_append_right_inj _).mpr)
  · unfold HandsOver
    rw [outcome_bind_error (Prod.ext hpanic rfl)]
    exact ⟨made, hmade, hstarted, .inr ⟨rfl, hfront.trans (List.prefix_append _ _)⟩⟩

/-- A step that goes on whatever came of a quiet run. -/
theorem bind_run {e : Evaluation α} {f : Except Stop α → Execution β} (h : Quiet e)
    (hf : ∀ r w₁, HandsOver (f r) executors w₁) :
    HandsOver ((liftM (ExceptT.run e : StateM World _) : Execution (Except Stop α)) >>= f)
      executors w := by
  obtain ⟨made, hmade, hstarted, hend⟩ := hf (outcome e w).1 (outcome e w).2
  unfold HandsOver
  rw [outcome_bind_run]
  exact ⟨made, by rw [hmade, (h w).1], hstarted.trans (h w).2, hend⟩

theorem settled {e : Evaluation α} (h : Quiet e) (w : World) :
    HandsOver (Run.settled e) [] w := by
  refine bind_run h fun r w₁ => ?_
  rcases r with (f | _) | v
  · exact .pure _ _
  · exact ⟨[], (List.append_nil _).symm, rfl, .inr ⟨rfl, List.nil_prefix⟩⟩
  · exact .pure _ _

end HandsOver

namespace JoinGroup

variable {env : Environment} {c : Context} {g : JoinGroup} {rows : List Row}

theorem quiet_evaluateCell {cell : Cell} {e : Evaluation Value}
    (h : evaluateCell env c g rows cell = some e) : Quiet e := by
  unfold evaluateCell at h
  split at h
  · cases h
    exact (evaluationClosed_quiet env.host c).evaluate _ _
  · cases h

/-- One effect hands over the task it is about, if it is about one. -/
theorem handsOver_perform (outcomes : Outcomes) (effect : Effect) (w : World) :
    HandsOver (perform env c g rows outcomes effect) (Effect.executors [effect]) w := by
  cases effect with
  | nothing => exact .pure _ _
  | submit cell executor => exact ⟨[executor], rfl, rfl, .inl ⟨⟨outcomes, rfl⟩, rfl⟩⟩
  | evaluate cell =>
    unfold perform
    dsimp only
    split
    · exact .pure _ _
    · next hcell =>
      exact (HandsOver.settled (quiet_evaluateCell hcell) w).bind fun _ _ _ => .pure _ _
  | work cell =>
    unfold perform
    dsimp only
    split
    · exact .pure _ _
    · next hcell =>
      refine .bind_run (quiet_evaluateCell hcell) fun r w₁ => ?_
      rcases r with (f | _) | v
      · exact .pure _ _
      · exact .pure _ _
      · exact .pure _ _

theorem handsOver_performAll (effects : List Effect) : ∀ (outcomes : Outcomes) (w : World),
    HandsOver (performAll env c g rows outcomes effects) (Effect.executors effects) w := by
  induction effects with
  | nil => exact fun outcomes w => .pure outcomes w
  | cons effect rest ih =>
    intro outcomes w
    have hcons : Effect.executors (effect :: rest) =
        Effect.executors [effect] ++ Effect.executors rest := by
      unfold Effect.executors
      rw [← List.singleton_append, List.flatMap_append, List.flatMap_append]
    rw [hcons]
    exact (handsOver_perform outcomes effect w).bind fun outcomes w₁ _ => ih outcomes w₁

/-- A group that is followed to its end hands over the tasks of its table. -/
theorem handsOver_evaluateAlong (env : Environment) (c : Context) (g : JoinGroup)
    (rows : List Row) (schedule : Schedule) (w : World) :
    HandsOver (evaluateAlong env c g rows schedule) ((g.table rows).flatMap (·.2.executors)) w := by
  have hcourse : Effect.executors ((g.progress rows).course schedule) ++ [] =
      (g.table rows).flatMap (·.2.executors) := by
    rw [List.append_nil]
    exact congrArg (List.flatMap _)
      (Progress.course_dispatched (g.permits_progress rows) schedule)
  rw [← hcourse]
  exact (handsOver_performAll ((g.progress rows).course schedule) [] w).bind fun _ _ _ => .pure _ _

/-! ## The account of a group -/

theorem quiet_evaluateRow (row : Row) (joins : List Join) :
    Quiet (evaluateRow (scope env c row) joins) := by
  induction joins with
  | nil => exact .pure _
  | cons join rest ih =>
    exact ((evaluationClosed_quiet env.host c).evaluate row join.expr).settled.bind fun _ =>
      ih.bind fun _ => .pure _

theorem quiet_evaluateRows (g : JoinGroup) (rows : List Row) :
    Quiet (evaluateRows env c g rows) := by
  induction rows with
  | nil => exact .pure _
  | cons row rest ih =>
    exact (quiet_evaluateRow row g.siblings).bind fun _ => ih.bind fun _ => .pure _

/-- Once the pool is dealt with, the tasks are dispatched as the scheduler says. -/
theorem outcome_evaluateKept_of_startPool (c : Context) (rows : List Row)
    (hasync : g.isAsync = true) {w w₁ : World}
    (hstart : outcome (startPool env g) w = (.ok (), w₁)) :
    outcome (g.evaluateKept env c rows) w =
      outcome (evaluateAlong env c g rows (env.scheduler w₁.submissions (g.table rows))) w₁ := by
  unfold evaluateKept
  rw [if_pos hasync, outcome_bind_ok hstart, outcome_bind_ok (outcome_get w₁)]

variable (env c g rows)

/-- From this world, the dispatch of the group can start the pool and hands it no task: there is no
row, or a loader breaks down under the dispatcher before that. -/
def CutShort (w : World) : Prop :=
  g.UsesPool ∧ env.poolFailure = none ∧
    (rows = [] ∨
      (outcome (g.evaluateKept env c rows) w).1 = .error .loaderPanic ∧
        none ∉ (outcome (g.evaluateKept env c rows) w).2.submissions.drop w.submissions.length)

/-- Once the pool has been started a group that uses it hands it a task, unless it is cut short. -/
theorem employs_of_startPool (h : g.UsesPool) {w w₁ : World}
    (hstart : outcome (startPool env g) w = (.ok (), w₁))
    (hsubmissions : w₁.submissions = w.submissions) (hstarted : w₁.poolStarted = true)
    (hcan : w.poolStarted = true ∨ env.poolFailure = none) :
    Employs (g.CutShort env c rows w) w (outcome (g.evaluateKept env c rows) w).2 := by
  have hkept := outcome_evaluateKept_of_startPool c rows h.isAsync hstart
  obtain ⟨made, hmade, hstarted', hend⟩ :=
    handsOver_evaluateAlong env c g rows (env.scheduler w₁.submissions (g.table rows)) w₁
  rw [← hkept] at hmade hstarted' hend
  refine ⟨made, by rw [hmade, hsubmissions], iff_of_true (hstarted'.trans hstarted) ?_⟩
  rcases hcan with hbefore | hpool
  · exact .inl hbefore
  · right
    by_cases hmem : none ∈ made
    · exact .inl hmem
    -- the table has a task for the pool if it has a row, so either there is none or it was not met
    · refine .inr ⟨h, hpool, ?_⟩
      rcases hend with ⟨-, rfl⟩ | ⟨hpanic, -⟩
      · exact .inl (by_contra fun hrows =>
          hmem ((g.none_mem_executors_table rows).mpr ⟨hrows, h⟩))
      · refine .inr ⟨hpanic, ?_⟩
        rwa [hmade, hsubmissions, List.drop_left]

/-- A group that uses the pool starts it, unless it has been started or cannot be. -/
theorem employs_of_usesPool (h : g.UsesPool) (w : World) :
    Employs (g.CutShort env c rows w) w (outcome (g.evaluateKept env c rows) w).2 := by
  have hstart := g.outcome_startPool_of_usesPool env h w
  by_cases hstarted : w.poolStarted = true
  · rw [if_pos hstarted] at hstart
    exact g.employs_of_startPool env c rows h hstart rfl hstarted (.inl hstarted)
  · rw [if_neg hstarted] at hstart
    cases hpool : env.poolFailure with
    | none =>
      rw [hpool] at hstart
      exact g.employs_of_startPool env c rows h hstart rfl rfl (.inr hpool)
    | some reason =>
      rw [hpool] at hstart
      have hkept : outcome (g.evaluateKept env c rows) w =
          (.error (.error (.fault (.pool reason))), w) := by
        unfold evaluateKept
        rw [if_pos h.isAsync, outcome_bind_error hstart]
      rw [hkept]
      refine (Employs.of_eq rfl rfl).of_iff ⟨False.elim, fun hshort => ?_⟩
      rw [CutShort, hpool] at hshort
      cases hshort.2.1

/-- A group that does not use the pool neither starts it nor hands it a task. -/
theorem employs_of_not_usesPool (h : ¬g.UsesPool) (w : World) :
    Employs (g.CutShort env c rows w) w (outcome (g.evaluateKept env c rows) w).2 := by
  have hshort : False ↔ g.CutShort env c rows w := ⟨False.elim, fun hshort => h hshort.1⟩
  refine Employs.of_iff ?_ hshort
  by_cases hasync : g.isAsync = true
  · have hstart := g.outcome_startPool_of_not_usesPool env h w
    rw [outcome_evaluateKept_of_startPool c rows hasync hstart]
    obtain ⟨made, hmade, hstarted, hend⟩ :=
      handsOver_evaluateAlong env c g rows (env.scheduler w.submissions (g.table rows)) w
    have hfront : made <+: (g.table rows).flatMap (·.2.executors) :=
      hend.elim (fun hall => hall.2 ▸ List.prefix_rfl) And.right
    have hnone : none ∉ made := fun hmem =>
      h ((g.none_mem_executors_table rows).mp (hfront.subset hmem)).2
    refine ⟨made, hmade, ?_⟩
    rw [hstarted]
    simp [hnone]
  · unfold evaluateKept
    rw [if_neg hasync]
    exact (quiet_evaluateRows g rows).employs w

theorem employs_evaluateKept (w : World) :
    Employs (g.CutShort env c rows w) w (outcome (g.evaluateKept env c rows) w).2 := by
  by_cases h : g.UsesPool
  · exact g.employs_of_usesPool env c rows h w
  · exact g.employs_of_not_usesPool env c rows h w

end JoinGroup

/-! ## Queries -/

namespace Query

variable {env : Environment} {c : Context}

/-- From this world, one of the groups that the rows are taken through is cut short. -/
def GroupsCutShort (env : Environment) (c : Context) :
    List JoinGroup → List Row → World → Prop
  | [], _, _ => False
  | g :: rest, rows, w =>
    (∃ kept w₁, outcome (evaluated (JoinGroup.applyGuards env c g.guards rows)) w = (.ok kept, w₁) ∧
      g.CutShort env c kept w₁) ∨
    ∃ rows' w₁, outcome (g.execute env c rows) w = (.ok rows', w₁) ∧
      GroupsCutShort env c rest rows' w₁

/-- Executed from this world, the query comes to the dispatch of a group that is cut short. -/
def CutShort (env : Environment) (c : Context) (q : Query) (w : World) : Prop :=
  ∃ rows w₁, outcome (bindSource q.source c) w = (.ok rows, w₁) ∧
    GroupsCutShort env c q.groups rows w₁

theorem employs_executeGroup (g : JoinGroup) (rows : List Row) (w : World) :
    Employs (∃ kept w₁, outcome (evaluated (JoinGroup.applyGuards env c g.guards rows)) w =
        (.ok kept, w₁) ∧ g.CutShort env c kept w₁) w (outcome (g.execute env c rows) w).2 := by
  have hguards : Quiet (evaluated (JoinGroup.applyGuards env c g.guards rows)) :=
    ((evaluationClosed_quiet env.host c).applyGuards g.guards rows).evaluated
  have hsettle (kept : List Row) (slots : List (List JoinGroup.Slot)) :
      Quiet (g.settle kept slots) := by
    unfold JoinGroup.settle
    split
    · exact .pure _
    · exact .throw _
  rw [JoinGroup.execute_eq]
  exact hguards.employs_bind fun kept w₁ _ =>
    (g.employs_evaluateKept env c kept w₁).bind_quiet (hsettle kept)

theorem employs_executeGroups (groups : List JoinGroup) : ∀ (rows : List Row) (w : World),
    Employs (GroupsCutShort env c groups rows w) w
      (outcome (executeGroups env c groups rows) w).2 := by
  induction groups with
  | nil => exact fun rows w => (Quiet.pure rows).employs w
  | cons g rest ih =>
    intro rows w
    exact (employs_executeGroup g rows w).bind fun rows' w₁ _ => ih rows' w₁

theorem quiet_bindSource (source : Source) (c : Context) : Quiet (bindSource source c) := by
  refine (c.quiet_get? source.name).evaluated.bind fun answer => ?_
  split
  · exact .throw _
  · exact .throw _
  · exact .pure _
  · exact .pure _

theorem employs_execute (env : Environment) (c : Context) (q : Query) (w : World) :
    Employs (q.CutShort env c w) w (outcome (q.execute env c) w).2 := by
  have hclosed := evaluationClosed_quiet env.host c
  have hselect (rows : List Row) : Quiet (q.selectRows env c rows) := by
    unfold selectRows
    split
    · exact .pure _
    · exact (hclosed.restrict _ rows).evaluated
  have hproject (rows : List Row) : Quiet (evaluated (projectAll env c q.projection rows)) :=
    (hclosed.projectAll q.projection rows).evaluated
  rw [execute_eq]
  exact (quiet_bindSource q.source c).employs_bind fun rows w₁ _ =>
    (employs_executeGroups q.groups rows w₁).bind_quiet fun rows =>
      (hselect rows).bind hproject

end Query

/-! ## Sequences of executions -/

/-- One execution on an engine: of a query that was built, or of a text. -/
inductive Job where
  | query (env : Environment) (c : Context) (q : Query)
  | text (env : Environment) (c : Context) (written : String)

namespace Job

def run : Job → Execution (List Object)
  | .query env c q => q.execute env c
  | .text env c written => Query.executeText env c written

/-- The world after the jobs, one after another, however each of them ended. -/
def runAll (w : World) (jobs : List Job) : World :=
  jobs.foldl (fun w job => (outcome job.run w).2) w

/-- Run from this world, the job comes to the dispatch of a group that is cut short. -/
def CutShort : Job → World → Prop
  | .query env c q, w => q.CutShort env c w
  | .text env c written, w => ∃ q, Query.parse written = .ok q ∧ q.CutShort env c w

theorem employs_run (job : Job) (w : World) :
    Employs (job.CutShort w) w (outcome job.run w).2 := by
  cases job with
  | query env c q => exact q.employs_execute env c w
  | text env c written =>
    show Employs (∃ q, Query.parse written = .ok q ∧ q.CutShort env c w) w
      (outcome (Query.executeText env c written) w).2
    unfold Query.executeText
    cases hparse : Query.parse written with
    | ok q =>
      refine (q.employs_execute env c w).of_iff ⟨fun h => ⟨q, rfl, h⟩, ?_⟩
      rintro ⟨_, ⟨⟩, h⟩
      exact h
    | error e =>
      refine (Employs.of_eq rfl rfl).of_iff ⟨False.elim, ?_⟩
      rintro ⟨_, ⟨⟩, -⟩

/-- Whatever is executed on an engine, one job after another, its pool has been started at the end
if and only if it was before, if a task was handed to it, or if one of the jobs came to the dispatch
of a group that uses the pool, while it could start, and handed it no task there, for want of rows
or because a loader broke down. -/
theorem runAll_poolStarted (jobs : List Job) (w : World) :
    ∃ made, (runAll w jobs).submissions = w.submissions ++ made ∧
      ((runAll w jobs).poolStarted = true ↔ w.poolStarted = true ∨ none ∈ made ∨
        ∃ front job back, jobs = front ++ job :: back ∧ job.CutShort (runAll w front)) := by
  show Employs _ _ _
  -- on the jobs to come, from whatever world those before them left
  induction jobs generalizing w with
  | nil => exact (Employs.of_eq rfl rfl).of_iff (by simp)
  | cons job rest ih =>
    refine ((job.employs_run w).trans (ih _)).of_iff ⟨?_, ?_⟩
    · rintro (hshort | ⟨front, other, back, rfl, hshort⟩)
      · exact ⟨[], job, rest, rfl, hshort⟩
      · exact ⟨job :: front, other, back, rfl, hshort⟩
    · rintro ⟨front, other, back, hsplit, hshort⟩
      cases front with
      | nil =>
        cases hsplit
        exact .inl hshort
      | cons first front =>
        cases hsplit
        exact .inr ⟨front, other, back, rfl, hshort⟩

/-- Over an empty array, a query with a join for the pool starts it and hands it nothing. -/
theorem poolStarted_without_task :
    let env : Environment := { host := { capability := fun _ =>
      ⟨fun _ _ => false, fun _ _ _ => .failed ""⟩ } }
    let c : Context := { innermost := { values := ⟨[("items", .array [])]⟩ } }
    let q : Query := {
      source := ⟨"items", "x"⟩
      groups := [⟨[⟨"y", .variable "x", none, .async none none⟩]⟩]
      restriction := none
      projection := [("y", .variable "y")] }
    ¬((runAll {} [.query env c q]).poolStarted = true ↔
      none ∈ (runAll {} [.query env c q]).submissions) := by
  intro env c q h
  have hstarted : (runAll {} [.query env c q]).poolStarted = true := rfl
  have hnone : (runAll {} [.query env c q]).submissions = [] := rfl
  rw [hnone] at h
  exact List.not_mem_nil (h.mp hstarted)

end Job
end RowQuery
