import Mathlib.Data.List.ReduceOption
import RowQuery.Proofs.Engine.Concurrency
import RowQuery.Proofs.Evaluation.Answers

/-!
# What a group reports

A group whose executors may drop tasks still accounts for each of its cells. `JoinGroup.account`
lists what there is to report, cell by cell: that a task was dropped, or the fault of an evaluation.
If there is nothing to report the group succeeds, and every row goes on with its siblings bound; if
there is something it fails, and its error is the account in the order of reporting (`Reports`). That
is `JoinGroup.execute_accounts`, for all schedules.

No schedule is excluded: what it leaves open is closed by `Progress.conclusion`, so each task is run
once or dropped in all of them.
-/

set_option autoImplicit false

namespace RowQuery

open Run

/-! ## The order of reporting -/

namespace RowFailure

theorem le_iff {a b : RowFailure} :
    a.le b ↔ a.row < b.row ∨ (a.row = b.row ∧ a.aliasName ≤ b.aliasName) := by
  simp [le]

theorem le_trans (a b c : RowFailure) (hab : a.le b) (hbc : b.le c) : a.le c := by
  rw [le_iff] at *
  rcases hab with hab | ⟨hab, hab'⟩
  · rcases hbc with hbc | ⟨hbc, -⟩
    · exact .inl (Nat.lt_trans hab hbc)
    · exact .inl (hbc ▸ hab)
  · rcases hbc with hbc | ⟨hbc, hbc'⟩
    · exact .inl (hab ▸ hbc)
    · exact .inr ⟨hab.trans hbc, String.le_trans hab' hbc'⟩

theorem le_total (a b : RowFailure) : (a.le b || b.le a) = true := by
  rw [Bool.or_eq_true, le_iff, le_iff]
  rcases Nat.lt_trichotomy a.row b.row with hlt | heq | hgt
  · exact .inl (.inl hlt)
  · rcases String.le_total a.aliasName b.aliasName with h | h
    · exact .inl (.inr ⟨heq, h⟩)
    · exact .inr (.inr ⟨heq.symm, h⟩)
  · exact .inr (.inl hgt)

/-- Whether the failure is one of this row and alias. -/
def isOf (row : Nat) (aliasName : String) (f : RowFailure) : Bool :=
  f.row == row && f.aliasName == aliasName

theorem le_of_isOf {row : Nat} {aliasName : String} {a b : RowFailure} (ha : a.isOf row aliasName)
    (hb : b.isOf row aliasName) : a.le b := by
  simp only [isOf, Bool.and_eq_true, beq_iff_eq] at ha hb
  rw [le_iff, ha.1, ha.2, hb.1, hb.2]
  exact .inr ⟨rfl, String.le_refl _⟩

end RowFailure

/-- The failures are those of the account, each as often as it stands there, ordered by row and then
by alias; those of one row and alias stand as in the account. -/
structure Reports (failures account : List RowFailure) : Prop where
  perm : failures.Perm account
  sorted : failures.Pairwise fun a b => a.le b
  ties : ∀ row aliasName,
    failures.filter (·.isOf row aliasName) = account.filter (·.isOf row aliasName)

theorem reports_sort (account : List RowFailure) : Reports (RowFailure.sort account) account where
  perm := List.mergeSort_perm account _
  sorted := List.pairwise_mergeSort RowFailure.le_trans RowFailure.le_total account
  ties row aliasName := by
    have hperm : (RowFailure.sort account).Perm account := List.mergeSort_perm account _
    -- those of one row and alias are in order as they stand, and sorting keeps what is in order
    have hkept : (account.filter (·.isOf row aliasName)).Pairwise fun a b => a.le b := by
      refine List.pairwise_of_forall_mem_list fun a ha b hb => ?_
      exact RowFailure.le_of_isOf (List.mem_filter.mp ha).2 (List.mem_filter.mp hb).2
    have hsub : (account.filter (·.isOf row aliasName)).Sublist (RowFailure.sort account) :=
      List.sublist_mergeSort RowFailure.le_trans RowFailure.le_total hkept List.filter_sublist
    have hfilter := hsub.filter (·.isOf row aliasName)
    rw [List.filter_filter, List.filter_congr fun _ _ => Bool.and_self _] at hfilter
    exact (hfilter.eq_of_length (hperm.filter _).length_eq.symm).symm

/-- It makes no difference whether parts of an account are put in the order of reporting before. -/
theorem reports_sort_flatMap {α : Type} (parts : List α) (account : α → List RowFailure) :
    Reports (RowFailure.sort (parts.flatMap account))
      (parts.flatMap fun part => RowFailure.sort (account part)) := by
  have hall := reports_sort (parts.flatMap account)
  refine ⟨hall.perm.trans ?_, hall.sorted, fun row aliasName => ?_⟩
  · exact List.Perm.flatMap_left _ fun part _ => (reports_sort (account part)).perm.symm
  · rw [hall.ties, List.filter_flatMap, List.filter_flatMap]
    refine congrArg (List.flatMap · parts) (funext fun part => ?_)
    exact ((reports_sort (account part)).ties row aliasName).symm

namespace JoinGroup

variable {env : Environment} {c : Context}

/-! ## Binding -/

/-- What is reported of a slot, if anything. -/
def slotFailure (index : Nat) (join : Join) : Slot → Option RowFailure
  | some (.ok _) => none
  | some (.error f) => some ⟨index, join.aliasName, f⟩
  | none => some ⟨index, join.aliasName, .invalidQuery (.lostTask join.aliasName)⟩

theorem bindRow_failures (joins : List Join) : ∀ (row : Row) (slots : List Slot),
    (bindRow row joins slots).2 = (List.zipWith (slotFailure row.index) joins slots).reduceOption := by
  induction joins with
  | nil =>
    intro row slots
    rfl
  | cons join rest ih =>
    intro row slots
    cases slots with
    | nil => rfl
    | cons slot slots =>
      rw [List.zipWith_cons_cons]
      unfold bindRow
      rcases slot with - | (f | v)
      · exact congrArg _ (ih row slots)
      · exact congrArg _ (ih row slots)
      · exact ih (row.bind join.aliasName v) slots

theorem bindRow_values (joins : List Join) : ∀ (row : Row) (values : List Value),
    joins.length = values.length →
    (bindRow row joins (values.map fun v => some (.ok v))).1 =
      ⟨row.index, row.bindings ++ (joins.map Join.aliasName).zip values⟩ := by
  induction joins with
  | nil =>
    intro row values _
    show row = ⟨row.index, row.bindings ++ []⟩
    rw [List.append_nil]
  | cons join rest ih =>
    intro row values hlength
    cases values with
    | nil => cases hlength
    | cons v values =>
      have hrest := ih (row.bind join.aliasName v) values (Nat.succ.inj hlength)
      rw [List.map_cons, bindRow, hrest, Row.bind, List.map_cons, List.zip_cons_cons,
        List.append_assoc]
      rfl

/-! ## Dropped tasks -/

theorem mem_table_of_dropped (g : JoinGroup) (rows : List Row) {schedule : Schedule} {cell : Cell}
    (h : Dropped ((g.progress rows).course schedule) cell) :
    ∃ executor, (cell, .task executor) ∈ g.table rows :=
  Progress.exists_task_of_submitted (g.permits_progress rows) h.1

/-- Without tasks there is nothing to drop. -/
theorem not_dropped_of_sync (g : JoinGroup) (rows : List Row) (hsync : g.isAsync = false)
    (schedule : Schedule) (cell : Cell) : ¬Dropped ((g.progress rows).course schedule) cell := by
  intro hdropped
  obtain ⟨executor, hentry⟩ := g.mem_table_of_dropped rows hdropped
  obtain ⟨i, -, hrow⟩ := List.mem_flatMap.mp hentry
  obtain ⟨j, hj, hjoin⟩ := List.mem_mapIdx.mp hrow
  have hinline : placement g.siblings[j] = .inline := by
    have hsibling := List.any_eq_false.mp hsync _ (List.getElem_mem hj)
    unfold placement
    cases hdispatch : g.siblings[j].dispatch with
    | sync => rfl
    | async limit executor =>
      rw [hdispatch] at hsibling
      exact absurd rfl hsibling
  rw [hinline] at hjoin
  cases hjoin

/-- The slots of a group started in this world. -/
theorem exists_outcome_evaluateKept (m : Meaning env.host c) (hpool : env.poolFailure = none)
    (g : JoinGroup) (rows : List Row) {w : World} (hw : c.Agrees w) :
    ∃ w', outcome (g.evaluateKept env c rows) w = (.ok (g.slotsAfter m
      ((g.progress rows).course (env.scheduler w.submissions (g.table rows))) rows), w') := by
  unfold evaluateKept
  by_cases hasync : g.isAsync = true
  · rw [if_pos hasync]
    obtain ⟨w₁, hstart, hloaded, -, hsubmissions⟩ := outcome_startPool g hpool w
    have halong := steady_evaluateAlong m g rows (env.scheduler w.submissions (g.table rows))
    obtain ⟨w₂, hout, -, -⟩ := halong w₁ (hw.of_loaded_eq hloaded)
    refine ⟨w₂, ?_⟩
    rw [outcome_bind_ok hstart, outcome_bind_ok (outcome_get w₁), hsubmissions]
    exact hout
  · rw [if_neg hasync]
    obtain ⟨w₁, hout, -, -⟩ := steady_evaluateRows m g rows w hw
    refine ⟨w₁, ?_⟩
    rw [slotsAfter_eq_slots m rows
      (g.not_dropped_of_sync rows (Bool.eq_false_iff.mpr hasync) _)]
    exact hout

/-! ## The account -/

/-- What the group has somebody do when it is started in this world and no row is left out by its
guards. -/
def effects (env : Environment) (c : Context) (g : JoinGroup) (rows : List Row) (w : World) :
    List Effect :=
  let w' := (outcome (evaluated (applyGuards env c g.guards rows)) w).2
  (g.progress rows).course (env.scheduler w'.submissions (g.table rows))

/-- What there is to report of a sibling for a row: that its task was dropped, or the fault of its
expression. -/
def report? (env : Environment) (c : Context) (effects : List Effect) (cell : Cell) (row : Row)
    (join : Join) : Option RowFailure :=
  if Dropped effects cell then
    some ⟨row.index, join.aliasName, .invalidQuery (.lostTask join.aliasName)⟩
  else
    match ((scope env c row).evaluate join.expr).answer with
    | .error (.fault f) => some ⟨row.index, join.aliasName, f⟩
    | .error .loaderPanic => none
    | .ok _ => none

/-- All there is to report, row by row and for each row in the order of the siblings. -/
def account (env : Environment) (c : Context) (g : JoinGroup) (effects : List Effect)
    (rows : List Row) : List RowFailure :=
  (rows.mapIdx fun i row =>
    (g.siblings.mapIdx fun j join => report? env c effects ⟨i, j⟩ row join).reduceOption).flatten

/-- The later row is the earlier one with the siblings bound to what their expressions come to, in
the order of declaration. -/
def Extends (env : Environment) (c : Context) (g : JoinGroup) (row row' : Row) : Prop :=
  ∃ values : List Value,
    List.Forall₂ (fun (join : Join) v => ((scope env c row).evaluate join.expr).answer = .ok v)
      g.siblings values ∧
    row' = ⟨row.index, row.bindings ++ (g.siblings.map Join.aliasName).zip values⟩

end JoinGroup

theorem Meaning.answer_evaluate {env : Environment} {c : Context} (m : Meaning env.host c)
    (row : Row) (e : Expr) :
    ((JoinGroup.scope env c row).evaluate e).answer = (m.value row e).mapError .fault :=
  (m.steady row e).answer_eq

theorem Meaning.answer_eq_ok_iff {env : Environment} {c : Context} (m : Meaning env.host c)
    {row : Row} {e : Expr} {v : Value} :
    ((JoinGroup.scope env c row).evaluate e).answer = .ok v ↔ m.value row e = .ok v := by
  rw [m.answer_evaluate]
  exact mapError_eq_ok_iff

namespace JoinGroup

variable {env : Environment} {c : Context} {g : JoinGroup} {effects : List Effect}

theorem slotFailure_slotsAfter (m : Meaning env.host c) (cell : Cell) (row : Row) (join : Join) :
    slotFailure row.index join
        (if Dropped effects cell then none else some (m.value row join.expr)) =
      report? env c effects cell row join := by
  unfold report?
  rw [m.answer_evaluate]
  split
  · rfl
  · cases m.value row join.expr <;> rfl

theorem map_mapIdx {α β γ : Type} (f : β → γ) (h : Nat → α → β) (l : List α) :
    (l.mapIdx h).map f = l.mapIdx fun i a => f (h i a) :=
  List.ext_getElem (by simp) fun i hi hi' => by simp

theorem zipWith_mapIdx {α β γ : Type} (f : α → β → γ) (h : Nat → α → β) (l : List α) :
    List.zipWith f l (l.mapIdx h) = l.mapIdx fun i a => f a (h i a) :=
  List.ext_getElem (by simp) fun i hi hi' => by simp

/-- Binding the slots finds what there is to report, in the order of the account. -/
theorem failures_bound_slotsAfter (m : Meaning env.host c) (rows : List Row) :
    (g.bound rows (g.slotsAfter m effects rows)).flatMap Prod.snd =
      g.account env c effects rows := by
  unfold bound slotsAfter account
  rw [zipWith_mapIdx, List.flatMap_def, map_mapIdx]
  refine congrArg List.flatten (congrArg (List.mapIdx · rows) ?_)
  refine funext fun i => funext fun row => ?_
  show (bindRow row g.siblings _).2 = _
  rw [bindRow_failures, zipWith_mapIdx]
  simp only [slotFailure_slotsAfter]

theorem account_eq_nil_iff {rows : List Row} :
    g.account env c effects rows = [] ↔ ∀ i (hi : i < rows.length), ∀ j (hj : j < g.siblings.length),
      report? env c effects ⟨i, j⟩ rows[i] g.siblings[j] = none := by
  unfold account
  rw [List.flatten_eq_nil_iff]
  constructor
  · intro h i hi j hj
    have hrow := h _ (List.mem_mapIdx.mpr ⟨i, hi, rfl⟩)
    rw [List.reduceOption_eq_nil_iff] at hrow
    obtain ⟨n, hn⟩ := hrow
    refine List.eq_of_mem_replicate (n := n) ?_
    rw [← hn]
    exact List.mem_mapIdx.mpr ⟨j, hj, rfl⟩
  · intro h l hl
    obtain ⟨i, hi, rfl⟩ := List.mem_mapIdx.mp hl
    rw [List.reduceOption_eq_nil_iff]
    refine ⟨g.siblings.length, List.eq_replicate_iff.mpr ⟨List.length_mapIdx, ?_⟩⟩
    intro failure hfailure
    obtain ⟨j, hj, rfl⟩ := List.mem_mapIdx.mp hfailure
    exact h i hi j hj

theorem report?_eq_none_iff (m : Meaning env.host c) {cell : Cell} {row : Row} {join : Join} :
    report? env c effects cell row join = none ↔
      ¬Dropped effects cell ∧ ∃ v, ((scope env c row).evaluate join.expr).answer = .ok v := by
  simp only [m.answer_eq_ok_iff]
  unfold report?
  rw [m.answer_evaluate]
  by_cases hdropped : Dropped effects cell
  · simp [hdropped]
  · rw [if_neg hdropped]
    cases m.value row join.expr with
    | ok v => exact iff_of_true rfl ⟨hdropped, v, rfl⟩
    | error f => exact iff_of_false nofun fun ⟨_, v, hv⟩ => by cases hv

/-- There is nothing to report if no task is dropped and every expression has a value. -/
theorem account_course_eq_nil_iff (m : Meaning env.host c) (g : JoinGroup) (rows : List Row)
    (schedule : Schedule) :
    g.account env c ((g.progress rows).course schedule) rows = [] ↔
      (∀ cell, ¬Dropped ((g.progress rows).course schedule) cell) ∧
        ∀ row ∈ rows, ∀ join ∈ g.siblings,
          ∃ v, ((scope env c row).evaluate join.expr).answer = .ok v := by
  rw [account_eq_nil_iff]
  constructor
  · intro h
    refine ⟨fun cell hdropped => ?_, fun row hrow join hjoin => ?_⟩
    · obtain ⟨executor, hentry⟩ := g.mem_table_of_dropped rows hdropped
      obtain ⟨hi, hj⟩ := mem_table_cells (List.mem_map_of_mem hentry)
      exact ((report?_eq_none_iff m).mp (h cell.row hi cell.sibling hj)).1 hdropped
    · obtain ⟨i, hi, rfl⟩ := List.getElem_of_mem hrow
      obtain ⟨j, hj, rfl⟩ := List.getElem_of_mem hjoin
      exact ((report?_eq_none_iff m).mp (h i hi j hj)).2
  · rintro ⟨hkept, hvalues⟩ i hi j hj
    exact (report?_eq_none_iff m).mpr
      ⟨hkept _, hvalues _ (List.getElem_mem hi) _ (List.getElem_mem hj)⟩

/-! ## The group -/

theorem exists_values (m : Meaning env.host c) (row : Row) {joins : List Join}
    (h : ∀ join ∈ joins, ∃ v, ((scope env c row).evaluate join.expr).answer = .ok v) :
    ∃ values : List Value,
      List.Forall₂ (fun (join : Join) v => ((scope env c row).evaluate join.expr).answer = .ok v)
        joins values ∧
      (joins.map fun join => some (m.value row join.expr)) =
        values.map fun v => some (.ok v) := by
  induction joins with
  | nil => exact ⟨[], .nil, rfl⟩
  | cons join rest ih =>
    obtain ⟨v, hv⟩ := h join List.mem_cons_self
    obtain ⟨values, hvalues, hslots⟩ := ih fun other hother => h other (List.mem_cons_of_mem _ hother)
    refine ⟨v :: values, .cons hv hvalues, ?_⟩
    rw [List.map_cons, List.map_cons, hslots, m.answer_eq_ok_iff.mp hv]

theorem extends_bindRow (m : Meaning env.host c) (g : JoinGroup) (row : Row)
    (h : ∀ join ∈ g.siblings, ∃ v, ((scope env c row).evaluate join.expr).answer = .ok v) :
    g.Extends env c row
      (bindRow row g.siblings (g.siblings.map fun join => some (m.value row join.expr))).1 := by
  obtain ⟨values, hvalues, hslots⟩ := exists_values m row h
  refine ⟨values, hvalues, ?_⟩
  rw [hslots]
  exact bindRow_values g.siblings row values hvalues.length_eq

theorem answer_applyGuards (hhost : env.host.IsPure) (hpure : c.IsPure) {guards : List Expr}
    {rows : List Row} (h : ∀ row ∈ rows, (passes (scope env c row) guards).answer = .ok true) :
    (applyGuards env c guards rows).answer = .ok rows := by
  induction rows with
  | nil => rfl
  | cons row rest ih =>
    have hpasses := (isSteady_passes (s := scope env c row) hhost hpure guards).firm
    have hrest := (isSteady_applyGuards hhost hpure guards rest).firm
    have hkept := ih fun other hother => h other (List.mem_cons_of_mem _ hother)
    refine (hpasses.answer_bind_eq_ok fun passed => hrest.bind fun kept => .pure _).mpr
      ⟨true, h row List.mem_cons_self, ?_⟩
    exact (hrest.answer_bind_eq_ok fun kept => .pure _).mpr ⟨rest, hkept, rfl⟩

/-- A group whose guards pass ends as the binding of its slots says. -/
theorem outcome_execute (m : Meaning env.host c) (hhost : env.host.IsPure) (hpure : c.IsPure)
    (hpool : env.poolFailure = none) (g : JoinGroup) {rows : List Row} {w : World}
    (hw : c.Agrees w)
    (hguards : ∀ row ∈ rows, (passes (scope env c row) g.guards).answer = .ok true) :
    (outcome (g.execute env c rows) w).1 =
      (g.bind rows (g.slotsAfter m (g.effects env c rows w) rows)).mapError .error := by
  have hfirm := (isSteady_applyGuards hhost hpure g.guards rows).firm.evaluated
  unfold Firm at hfirm
  rw [answer_evaluated, answer_applyGuards hhost hpure hguards] at hfirm
  obtain ⟨w₁, hout₁, hw₁, -⟩ := hfirm w hw
  obtain ⟨w₂, hout₂⟩ := exists_outcome_evaluateKept m hpool g rows hw₁
  have heffects : g.effects env c rows w =
      (g.progress rows).course (env.scheduler w₁.submissions (g.table rows)) := by
    unfold effects
    rw [hout₁]
  rw [execute_eq, outcome_bind_ok hout₁, outcome_bind_ok hout₂, heffects]
  unfold settle
  cases g.bind rows _ <;> rfl

/-- A group whose guards pass succeeds if no task is dropped and every expression has a value, and
its rows are then the rows before, extended; otherwise it reports its account, all of it. -/
theorem execute_accounts (g : JoinGroup) (rows : List Row) {w : World} (hhost : env.host.IsPure)
    (hpure : c.IsPure) (hpool : env.poolFailure = none) (hw : c.Agrees w)
    (hguards : ∀ row ∈ rows, (passes (scope env c row) g.guards).answer = .ok true) :
    let effects := g.effects env c rows w
    let result := (outcome (g.execute env c rows) w).1
    ((∃ out, result = .ok out) ↔ (∀ cell, ¬Dropped effects cell) ∧
      ∀ row ∈ rows, ∀ join ∈ g.siblings,
        ∃ v, ((scope env c row).evaluate join.expr).answer = .ok v) ∧
    (∀ out, result = .ok out → List.Forall₂ (g.Extends env c) rows out) ∧
    ((¬∃ out, result = .ok out) → ∃ failures, result = .error (.error (.join failures)) ∧
      Reports failures (g.account env c effects rows)) := by
  intro effects result
  obtain ⟨m⟩ := exists_meaning hhost hpure
  have hresult : result = _ := outcome_execute m hhost hpure hpool g hw hguards
  have hfailures : (g.bound rows (g.slotsAfter m effects rows)).flatMap Prod.snd = _ :=
    failures_bound_slotsAfter m rows
  have hsettled : g.account env c effects rows = [] ↔ (∀ cell, ¬Dropped effects cell) ∧
      ∀ row ∈ rows, ∀ join ∈ g.siblings,
        ∃ v, ((scope env c row).evaluate join.expr).answer = .ok v :=
    account_course_eq_nil_iff m g rows _
  rw [← hsettled]
  by_cases haccount : g.account env c effects rows = []
  · rw [bind_eq_ok (hfailures.trans haccount)] at hresult
    obtain ⟨hkept, hvalues⟩ := hsettled.mp haccount
    refine ⟨⟨fun _ => haccount, fun _ => ⟨_, hresult⟩⟩, fun out hout => ?_,
      fun hfailed => absurd ⟨_, hresult⟩ hfailed⟩
    rw [hout, slotsAfter_eq_slots m rows hkept] at hresult
    cases hresult
    unfold bound slots
    rw [List.zipWith_map_right, List.zipWith_self, List.map_map, List.forall₂_map_right_iff,
      List.forall₂_same]
    exact fun row hrow => extends_bindRow m g row (hvalues row hrow)
  · rw [bind_eq_error (hfailures.trans_ne haccount)] at hresult
    have hfailed : ¬∃ out, result = .ok out := by
      rintro ⟨out, hout⟩
      rw [hout] at hresult
      cases hresult
    exact ⟨⟨fun hok => absurd hok hfailed, fun h => absurd h haccount⟩,
      fun out hout => absurd ⟨out, hout⟩ hfailed,
      fun _ => ⟨_, hresult, hfailures ▸ reports_sort _⟩⟩

/-- The tasks of the first row are dropped and those of the second run, last handed over first; one
sibling fails in the course of the query, one in its task, and the two share their alias. -/
theorem execute_accounts_dropping :
    let g : JoinGroup := ⟨[
      ⟨"b", .call (.variable "api") "echo" [.variable "x"], some (.variable "x"), .async none none⟩,
      ⟨"a", .add (.literal (.bool true)) (.literal .null), none, .sync⟩,
      ⟨"a", .variable "y", none, .async none (some 7)⟩]⟩
    let env : Environment := {
      host := { capability := fun _ =>
        ⟨fun _ _ => true, fun _ _ values => .returned (values.headD .null)⟩ }
      scheduler := fun _ table => table.map (fun _ => .dispatch) ++
        table.reverse.flatMap fun (cell, _) =>
          if cell.row = 0 then [.drop cell] else [.start cell, .finish cell] }
    let c : Context := { innermost := { values := ⟨[("api", .capability ⟨0, "api"⟩)]⟩ } }
    let rows : List Row := [⟨3, [("x", .string "pear")]⟩, ⟨5, [("x", .string "fig")]⟩]
    let effects := g.effects env c rows {}
    let result := (outcome (g.execute env c rows) {}).1
    g.account env c effects rows = [
      ⟨3, "b", .invalidQuery (.lostTask "b")⟩, ⟨3, "a", .mismatch (.cannotAdd "boolean" "null")⟩,
      ⟨3, "a", .invalidQuery (.lostTask "a")⟩, ⟨5, "a", .mismatch (.cannotAdd "boolean" "null")⟩,
      ⟨5, "a", .unresolved (.undefined "y")⟩] ∧
    ((∃ out, result = .ok out) ↔ (∀ cell, ¬Dropped effects cell) ∧
      ∀ row ∈ rows, ∀ join ∈ g.siblings,
        ∃ v, ((scope env c row).evaluate join.expr).answer = .ok v) ∧
    (∀ out, result = .ok out → List.Forall₂ (g.Extends env c) rows out) ∧
    ((¬∃ out, result = .ok out) → ∃ failures, result = .error (.error (.join failures)) ∧
      Reports failures (g.account env c effects rows)) := by
  intro g env c rows effects result
  have hhost : env.host.IsPure := ⟨fun _ _ => rfl, fun _ _ _ _ => rfl⟩
  have hpure : c.IsPure := fun _ h => by cases h
  have hguards : ∀ row ∈ rows, (passes (scope env c row) g.guards).answer = .ok true := by
    intro row hrow
    rcases List.mem_cons.mp hrow with rfl | hrow
    · rfl
    · cases List.mem_singleton.mp hrow
      rfl
  exact ⟨by decide +kernel,
    execute_accounts g rows hhost hpure rfl (Context.agrees_of_loaded_nil rfl) hguards⟩

end JoinGroup
end RowQuery
