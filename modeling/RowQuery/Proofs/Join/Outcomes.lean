import RowQuery.Join.Group
import RowQuery.Proofs.Evaluation.Steady
import RowQuery.Proofs.Join.Accounts

/-!
# The slots of a group

What a group computes does not depend on who evaluates its cells. Evaluated in the course of the
query or along a schedule that runs every task, the slots are those of `JoinGroup.slots`; only the
calls come in the order in which the cells were evaluated. Where a schedule drops tasks, the slots of
those cells stay empty and the others are the same (`JoinGroup.slotsAfter`).
-/

set_option autoImplicit false

namespace RowQuery

open Run

namespace JoinGroup

variable {env : Environment} {c : Context}

/-! ## Guards -/

theorem isSteady_passes {s : Scope} (hhost : s.host.IsPure) (hpure : s.context.IsPure)
    (guards : List Expr) : IsSteady s.context (passes s guards) :=
  (Scope.evaluationClosed_isSteady hhost hpure).passes s.row guards

theorem isSteady_applyGuards (hhost : env.host.IsPure) (hpure : c.IsPure) (guards : List Expr)
    (rows : List Row) : IsSteady c (applyGuards env c guards rows) :=
  (Scope.evaluationClosed_isSteady hhost hpure).applyGuards guards rows

/-! ## Evaluation in the course of the query -/

/-- The outcomes of all cells. -/
def slots (m : Meaning env.host c) (g : JoinGroup) (rows : List Row) : List (List Slot) :=
  rows.map fun row => g.siblings.map fun join => some (m.value row join.expr)

/-- The calls of all cells, row by row. -/
def calls (m : Meaning env.host c) (g : JoinGroup) (rows : List Row) : List Invocation :=
  rows.flatMap fun row => g.siblings.flatMap fun join => m.calls row join.expr

theorem steady_evaluateRow (m : Meaning env.host c) (row : Row) (joins : List Join) :
    Steady c (evaluateRow (scope env c row) joins)
      (.ok (joins.map fun join => some (m.value row join.expr)))
      (joins.flatMap fun join => m.calls row join.expr) := by
  induction joins with
  | nil => exact .pure _
  | cons join rest ih =>
    rw [List.flatMap_cons]
    refine (m.steady row join.expr).settled.bind_ok ?_
    rw [← List.append_nil (rest.flatMap _)]
    exact ih.bind_ok (.pure _)

theorem steady_evaluateRows (m : Meaning env.host c) (g : JoinGroup) (rows : List Row) :
    Steady c (evaluateRows env c g rows) (.ok (g.slots m rows)) (g.calls m rows) := by
  induction rows with
  | nil => exact .pure _
  | cons row rest ih =>
    unfold calls
    rw [List.flatMap_cons]
    refine (steady_evaluateRow m row g.siblings).bind_ok ?_
    rw [← List.append_nil (rest.flatMap _)]
    exact ih.bind_ok (.pure _)

/-! ## Cells -/

/-- What the evaluation of a cell comes to. -/
def cellValue (m : Meaning env.host c) (g : JoinGroup) (rows : List Row) (cell : Cell) :
    Except Fault Value :=
  match rows[cell.row]?, g.siblings[cell.sibling]? with
  | some row, some join => m.value row join.expr
  | _, _ => .ok .null

def cellCalls (m : Meaning env.host c) (g : JoinGroup) (rows : List Row) (cell : Cell) :
    List Invocation :=
  match rows[cell.row]?, g.siblings[cell.sibling]? with
  | some row, some join => m.calls row join.expr
  | _, _ => []

/-- Every cell of the table stands for an evaluation. -/
theorem steady_cell (m : Meaning env.host c) (g : JoinGroup) (rows : List Row) {cell : Cell}
    (hrow : cell.row < rows.length) (hsibling : cell.sibling < g.siblings.length) :
    ∃ evaluation, evaluateCell env c g rows cell = some evaluation ∧
      Steady c evaluation ((g.cellValue m rows cell).mapError .fault) (g.cellCalls m rows cell) := by
  unfold evaluateCell cellValue cellCalls
  rw [List.getElem?_eq_getElem hrow, List.getElem?_eq_getElem hsibling]
  exact ⟨_, rfl, m.steady _ _⟩

theorem map_range_eq_mapIdx {α β : Type} {l : List α} {f : Nat → β} {g : Nat → α → β}
    (h : ∀ i (hi : i < l.length), f i = g i l[i]) :
    (List.range l.length).map f = l.mapIdx g := by
  refine List.ext_getElem (by simp) fun i hi hi' => ?_
  rw [List.getElem_map, List.getElem_mapIdx, List.getElem_range]
  exact h i _

theorem mapIdx_const {α β : Type} (f : α → β) (l : List α) : (l.mapIdx fun _ a => f a) = l.map f :=
  List.ext_getElem (by simp) fun i hi hi' => by simp

theorem map_range_length {α β : Type} {l : List α} {f : Nat → β} {g : α → β}
    (h : ∀ i (hi : i < l.length), f i = g l[i]) : (List.range l.length).map f = l.map g :=
  (map_range_eq_mapIdx h).trans (mapIdx_const g l)

theorem table_cells (g : JoinGroup) (rows : List Row) :
    (g.table rows).map Prod.fst = (List.range rows.length).flatMap fun i =>
      (List.range g.siblings.length).map (Cell.mk i) := by
  unfold table
  rw [List.map_flatMap]
  refine congrArg (List.flatMap · _) (funext fun i => ?_)
  refine List.ext_getElem (by simp) ?_
  intro j hj hj'
  rw [List.getElem_map, List.getElem_mapIdx, List.getElem_map, List.getElem_range]

theorem mem_table_cells {g : JoinGroup} {rows : List Row} {cell : Cell}
    (h : cell ∈ (g.table rows).map Prod.fst) :
    cell.row < rows.length ∧ cell.sibling < g.siblings.length := by
  rw [table_cells] at h
  obtain ⟨i, hi, hcell⟩ := List.mem_flatMap.mp h
  obtain ⟨j, hj, rfl⟩ := List.mem_map.mp hcell
  exact ⟨List.mem_range.mp hi, List.mem_range.mp hj⟩

theorem table_nodup (g : JoinGroup) (rows : List Row) : ((g.table rows).map Prod.fst).Nodup := by
  rw [table_cells, List.nodup_flatMap]
  refine ⟨fun i _ => ?_, ?_⟩
  · exact List.nodup_range.map fun j j' h => (Cell.mk.inj h).2
  · refine List.nodup_range.imp fun hne cell hcell hcell' => ?_
    obtain ⟨j, -, rfl⟩ := List.mem_map.mp hcell
    obtain ⟨j', -, heq⟩ := List.mem_map.mp hcell'
    exact hne (Cell.mk.inj heq).1.symm

theorem cell_calls (m : Meaning env.host c) (g : JoinGroup) (rows : List Row) :
    ((g.table rows).map Prod.fst).flatMap (g.cellCalls m rows) = g.calls m rows := by
  rw [table_cells, List.flatMap_assoc]
  refine congrArg List.flatten (map_range_length fun i hi => ?_)
  rw [List.flatMap_map]
  refine congrArg List.flatten (map_range_length fun j hj => ?_)
  unfold cellCalls
  dsimp only
  rw [List.getElem?_eq_getElem hi, List.getElem?_eq_getElem hj]

/-! ## Evaluation along a schedule -/

/-- One event adds the outcome of the cell it evaluates, if it evaluates one. -/
theorem steady_perform (m : Meaning env.host c) (g : JoinGroup) (rows : List Row) {effect : Effect}
    (hcells : ∀ cell ∈ effect.evaluated, cell ∈ (g.table rows).map Prod.fst)
    (outcomes : Outcomes) :
    Steady c (perform env c g rows outcomes effect)
      (.ok (effect.evaluated.map (fun cell => (cell, g.cellValue m rows cell)) ++ outcomes))
      (effect.evaluated.flatMap (g.cellCalls m rows)) := by
  cases effect with
  | nothing => exact .pure _
  | submit cell executor =>
    have hsubmit : Steady c (modify fun w =>
        { w with submissions := w.submissions ++ [executor] } : Execution Unit) (.ok ()) [] :=
      .modify (fun _ => rfl) (fun _ => rfl)
    exact hsubmit.bind_ok (.pure outcomes)
  | evaluate cell =>
    obtain ⟨hrow, hsibling⟩ := mem_table_cells (hcells cell List.mem_cons_self)
    obtain ⟨evaluation, hcell, hsteady⟩ := steady_cell m g rows hrow hsibling
    unfold perform
    dsimp only
    rw [hcell]
    exact hsteady.settled.bind_ok (.pure _)
  | work cell =>
    obtain ⟨hrow, hsibling⟩ := mem_table_cells (hcells cell List.mem_cons_self)
    obtain ⟨evaluation, hcell, hsteady⟩ := steady_cell m g rows hrow hsibling
    intro w hw
    obtain ⟨w', hout, hagree, hcalls⟩ := hsteady w hw
    refine ⟨w', ?_, hagree, ?_⟩
    · unfold perform
      dsimp only
      rw [hcell]
      dsimp only
      rw [outcome_bind_run, hout]
      show _ = (Except.ok ((cell, g.cellValue m rows cell) :: outcomes), w')
      cases g.cellValue m rows cell <;> rfl
    · rw [hcalls]
      show _ = w.invocations ++ (_ ++ [])
      rw [List.append_nil]

theorem steady_performAll (m : Meaning env.host c) (g : JoinGroup) (rows : List Row)
    (effects : List Effect) :
    (∀ cell ∈ effects.flatMap Effect.evaluated, cell ∈ (g.table rows).map Prod.fst) →
    ∀ outcomes : Outcomes, ∃ added : List Cell,
      added.Perm (effects.flatMap Effect.evaluated) ∧
      Steady c (performAll env c g rows outcomes effects)
        (.ok (added.map (fun cell => (cell, g.cellValue m rows cell)) ++ outcomes))
        ((effects.flatMap Effect.evaluated).flatMap (g.cellCalls m rows)) := by
  induction effects with
  | nil => exact fun _ _ => ⟨[], .refl _, .pure _⟩
  | cons effect rest ih =>
    intro hcells outcomes
    rw [List.flatMap_cons] at hcells ⊢
    have hone := steady_perform m g rows
      (fun cell h => hcells cell (List.mem_append_left _ h)) outcomes
    obtain ⟨added, hperm, hrest⟩ := ih (fun cell h => hcells cell (List.mem_append_right _ h))
      (effect.evaluated.map (fun cell => (cell, g.cellValue m rows cell)) ++ outcomes)
    -- outcomes are added in front, so those of the rest come before this one
    refine ⟨added ++ effect.evaluated, ?_, ?_⟩
    · exact List.perm_append_comm.trans (hperm.append_left _)
    · rw [List.flatMap_append, List.map_append, List.append_assoc]
      exact hone.bind_ok hrest

theorem lookup_outcome {cells : List Cell} {value : Cell → Except Fault Value} {cell : Cell}
    (h : cell ∈ cells) :
    (cells.map fun cell => (cell, value cell)).lookup cell = some (value cell) := by
  induction cells with
  | nil => cases h
  | cons other rest ih =>
    rw [List.map_cons, List.lookup_cons]
    by_cases heq : cell = other
    · rw [heq, beq_self_eq_true]
    · rw [beq_false_of_ne heq]
      rcases List.mem_cons.mp h with h | h
      · exact absurd h heq
      · exact ih h

theorem lookup_eq_none {cells : List Cell} {value : Cell → Except Fault Value} {cell : Cell}
    (h : cell ∉ cells) : (cells.map fun cell => (cell, value cell)).lookup cell = none := by
  induction cells with
  | nil => rfl
  | cons other rest ih =>
    have hne : cell ≠ other := fun heq => h (heq ▸ List.mem_cons_self)
    rw [List.map_cons, List.lookup_cons, beq_false_of_ne hne]
    exact ih fun hmem => h (List.mem_cons_of_mem _ hmem)

theorem permits_progress (g : JoinGroup) (rows : List Row) : (g.progress rows).Permits := by
  intro gate hgate
  obtain ⟨limit, -, rfl⟩ := Option.map_eq_some_iff.mp hgate
  rfl

/-- The outcomes of the cells, with those of dropped tasks missing. -/
def slotsAfter (m : Meaning env.host c) (g : JoinGroup) (effects : List Effect) (rows : List Row) :
    List (List Slot) :=
  rows.mapIdx fun i row => g.siblings.mapIdx fun j join =>
    if Dropped effects ⟨i, j⟩ then none else some (m.value row join.expr)

theorem slotsAfter_eq_slots (m : Meaning env.host c) {g : JoinGroup} {effects : List Effect}
    (rows : List Row) (h : ∀ cell, ¬Dropped effects cell) :
    g.slotsAfter m effects rows = g.slots m rows := by
  unfold slotsAfter slots
  simp only [if_neg (h _), mapIdx_const]

/-- Along any schedule the cells are evaluated except those whose task is dropped. -/
theorem steady_evaluateAlong (m : Meaning env.host c) (g : JoinGroup) (rows : List Row)
    (schedule : Schedule) :
    Steady c (evaluateAlong env c g rows schedule)
      (.ok (g.slotsAfter m ((g.progress rows).course schedule) rows))
      ((((g.progress rows).course schedule).flatMap Effect.evaluated).flatMap
        (g.cellCalls m rows)) := by
  have hsubset : ∀ cell ∈ ((g.progress rows).course schedule).flatMap Effect.evaluated,
      cell ∈ (g.table rows).map Prod.fst := by
    intro cell hcell
    have hcells := (Progress.course_evaluated schedule).subset hcell
    simpa [Progress.cells, progress] using hcells
  obtain ⟨added, hadded, hsteady⟩ := steady_performAll m g rows _ hsubset []
  have hslots : ((List.range rows.length).map fun i =>
      (List.range g.siblings.length).map fun j =>
        (added.map (fun cell => (cell, g.cellValue m rows cell)) ++ []).lookup (Cell.mk i j)) =
      g.slotsAfter m ((g.progress rows).course schedule) rows := by
    rw [List.append_nil]
    refine map_range_eq_mapIdx fun i hi => map_range_eq_mapIdx fun j hj => ?_
    have hcell : (⟨i, j⟩ : Cell) ∈ (g.table rows).map Prod.fst := by
      rw [table_cells]
      exact List.mem_flatMap.mpr
        ⟨i, List.mem_range.mpr hi, List.mem_map_of_mem (List.mem_range.mpr hj)⟩
    have hkept := Progress.evaluated_course_iff (g.permits_progress rows) (g.table_nodup rows)
      schedule hcell
    rw [← hadded.mem_iff] at hkept
    split
    · next hdropped =>
      exact lookup_eq_none fun hmem => hkept.mp hmem hdropped
    · next hdropped =>
      rw [lookup_outcome (hkept.mpr hdropped)]
      unfold cellValue
      rw [List.getElem?_eq_getElem hi, List.getElem?_eq_getElem hj]
  rw [← List.append_nil (List.flatMap _ _)]
  refine hsteady.bind_ok ?_
  rw [hslots]
  exact .pure _

/-- Along a schedule that runs every task the slots are the same, and the calls are the same up to
their order. -/
theorem steady_evaluateAlong_of_runsEach (m : Meaning env.host c) (g : JoinGroup) (rows : List Row)
    {schedule : Schedule} (hruns : RunsEach ((g.progress rows).course schedule)) :
    ∃ made : List Invocation, made.Perm (g.calls m rows) ∧
      Steady c (evaluateAlong env c g rows schedule) (.ok (g.slots m rows)) made := by
  have hperm := Progress.course_evaluated_perm (g.permits_progress rows) rfl rfl
    (g.table_nodup rows) hruns
  have hsteady := steady_evaluateAlong m g rows schedule
  rw [slotsAfter_eq_slots m rows hruns.not_dropped] at hsteady
  refine ⟨_, ?_, hsteady⟩
  rw [← cell_calls]
  exact hperm.flatMap_right _

/-! ## Binding -/

/-- Every row with what it is bound to and its failures. -/
def bound (g : JoinGroup) (rows : List Row) (slots : List (List Slot)) :
    List (Row × List RowFailure) :=
  List.zipWith (fun row slots => bindRow row g.siblings slots) rows slots

theorem bind_eq_ok {g : JoinGroup} {rows : List Row} {slots : List (List Slot)}
    (h : (g.bound rows slots).flatMap Prod.snd = []) :
    g.bind rows slots = .ok ((g.bound rows slots).map Prod.fst) := by
  unfold bound at h
  unfold bind bound
  dsimp only
  rw [h]

theorem bind_eq_error {g : JoinGroup} {rows : List Row} {slots : List (List Slot)}
    (h : (g.bound rows slots).flatMap Prod.snd ≠ []) :
    g.bind rows slots = .error (.ofFailures ((g.bound rows slots).flatMap Prod.snd)) := by
  unfold bound at h
  unfold bind bound
  dsimp only
  split
  · contradiction
  · rfl

end JoinGroup
end RowQuery
