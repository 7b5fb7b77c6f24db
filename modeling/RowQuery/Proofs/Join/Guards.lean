import Mathlib.Data.List.Flatten
import Mathlib.Data.List.Perm.Subperm
import Mathlib.Data.List.ProdSigma
import RowQuery.Proofs.Engine.FirstFailure

/-!
# Guards come before joins

Of a row the guards are evaluated in order up to the first one that does not admit it
(`Scope.reached`), and that one decides: if it is null or false the row is left out
(`Scope.FirstGuardRejects`), if it fails so does the group (`Scope.FirstGuardFails`). Only when all
rows have been through are joins evaluated, each sibling once for each row that is left.

`JoinGroup.execute_gated` says so of the rows that come out of a group and of the calls that go in,
in their order. For a group with tasks the guards come first too; which cells are evaluated behind
them, and in which order, is then a matter of its schedule.
-/

set_option autoImplicit false

namespace RowQuery

open Run
open List (Subperm)

/-! ## The guards of a row -/

namespace Scope

variable {s : Scope} {guard : Expr} {guards rest : List Expr} {f : Fault}

/-- The guard has a value that lets the row pass. -/
def Admits (s : Scope) (guard : Expr) : Prop :=
  ∃ v, (s.evaluate guard).answer = .ok v ∧ v.Admits

instance (s : Scope) (guard : Expr) : Decidable (s.Admits guard) :=
  match h : (s.evaluate guard).answer with
  | .ok v => decidable_of_iff v.Admits (by simp [Admits, h])
  | .error _ => isFalse (by simp [Admits, h])

/-- One of the guards is null or false, and the row passes those before it. -/
def FirstGuardRejects (s : Scope) (guards : List Expr) : Prop :=
  ∃ before guard after v, guards = before ++ guard :: after ∧
    (∀ e ∈ before, s.Admits e) ∧ (s.evaluate guard).answer = .ok v ∧ ¬v.Admits

/-- The guards that are evaluated for the row: up to the first that does not admit it. -/
def reached (s : Scope) : List Expr → List Expr
  | [] => []
  | guard :: rest => guard :: if s.Admits guard then s.reached rest else []

/-- The calls of the guards that are evaluated for the row. -/
def guardCalls (s : Scope) (guards : List Expr) : List Invocation :=
  (s.reached guards).flatMap fun guard => (s.evaluate guard).calls

theorem firstGuardRejects_cons_iff : s.FirstGuardRejects (guard :: rest) ↔
    (∃ v, (s.evaluate guard).answer = .ok v ∧ ¬v.Admits) ∨
      (s.Admits guard ∧ s.FirstGuardRejects rest) := by
  constructor
  · rintro ⟨before, other, after, v, hguards, hbefore, hv, hrejects⟩
    cases before with
    | nil =>
      cases hguards
      exact .inl ⟨v, hv, hrejects⟩
    | cons first before =>
      cases hguards
      obtain ⟨hfirst, hbefore⟩ := List.forall_mem_cons.mp hbefore
      exact .inr ⟨hfirst, before, other, after, v, rfl, hbefore, hv, hrejects⟩
  · rintro (⟨v, hv, hrejects⟩ | ⟨hadmits, before, other, after, v, rfl, hbefore, hv, hrejects⟩)
    · exact ⟨[], guard, rest, v, rfl, nofun, hv, hrejects⟩
    · exact ⟨guard :: before, other, after, v, rfl,
        List.forall_mem_cons.mpr ⟨hadmits, hbefore⟩, hv, hrejects⟩

theorem firstGuardFails_cons_iff : s.FirstGuardFails (guard :: rest) f ↔
    (s.evaluate guard).answer = .error (.fault f) ∨
      (s.Admits guard ∧ s.FirstGuardFails rest f) := by
  constructor
  · rintro ⟨before, other, after, hguards, hbefore, hfails⟩
    cases before with
    | nil =>
      cases hguards
      exact .inl hfails
    | cons first before =>
      cases hguards
      obtain ⟨hfirst, hbefore⟩ := List.forall_mem_cons.mp hbefore
      exact .inr ⟨hfirst, before, other, after, rfl, hbefore, hfails⟩
  · rintro (hfails | ⟨hadmits, before, other, after, rfl, hbefore, hfails⟩)
    · exact ⟨[], guard, rest, rfl, nofun, hfails⟩
    · exact ⟨guard :: before, other, after, rfl,
        List.forall_mem_cons.mpr ⟨hadmits, hbefore⟩, hfails⟩

instance decidableFirstGuardRejects (s : Scope) :
    (guards : List Expr) → Decidable (s.FirstGuardRejects guards)
  | [] => isFalse fun ⟨_, _, _, _, h, _⟩ => by simp at h
  | guard :: rest =>
    have := decidableFirstGuardRejects s rest
    match h : (s.evaluate guard).answer with
    | .ok v => decidable_of_iff (¬v.Admits ∨ s.FirstGuardRejects rest) (by
        rw [firstGuardRejects_cons_iff]
        by_cases hv : v.Admits <;> simp [Admits, h, hv])
    | .error _ => isFalse (by simp [firstGuardRejects_cons_iff, Admits, h])

end Scope

namespace JoinGroup

variable {s : Scope} {guards : List Expr} {f : Fault}

section

variable (hhost : s.host.IsPure) (hpure : s.context.IsPure)

include hhost hpure

/-- The guards make the calls of those that are evaluated. -/
theorem calls_passes (guards : List Expr) : (passes s guards).calls = s.guardCalls guards := by
  induction guards with
  | nil => rfl
  | cons guard rest ih =>
    have hguard := (Scope.isSteady_evaluate hhost hpure guard).firm
    have hstep := firm_passes_step hhost hpure rest
    unfold Scope.guardCalls Scope.reached
    rw [passes_cons, List.flatMap_cons]
    cases hanswer : (s.evaluate guard).answer with
    | error e =>
      rw [hguard.calls_bind_error hanswer, if_neg (by simp [Scope.Admits, hanswer]),
        List.flatMap_nil, List.append_nil]
    | ok v =>
      rw [hguard.calls_bind_ok hstep hanswer]
      have hiff : s.Admits guard ↔ v.Admits := by simp [Scope.Admits, hanswer]
      by_cases hv : v.Admits
      · rw [if_pos hv, if_pos (hiff.mpr hv), ih]
        rfl
      · rw [if_neg hv, if_neg (mt hiff.mp hv)]
        rfl

theorem answer_passes_of_fails (h : s.FirstGuardFails guards f) :
    (passes s guards).answer = .error (.fault f) := by
  induction guards with
  | nil =>
    obtain ⟨before, guard, after, hguards, -⟩ := h
    simp at hguards
  | cons guard rest ih =>
    rw [answer_passes_cons hhost hpure]
    rcases Scope.firstGuardFails_cons_iff.mp h with hfails | ⟨⟨v, hv, hadmits⟩, hrest⟩
    · rw [hfails]
      rfl
    · rw [hv]
      exact (if_pos hadmits).trans (ih hrest)

/-- Guards that come to a decision let the row pass unless one of them rejects it. -/
theorem answer_passes_of_settled (h : ∀ f, ¬s.FirstGuardFails guards f) :
    (passes s guards).answer = .ok (decide ¬s.FirstGuardRejects guards) := by
  induction guards with
  | nil => rfl
  | cons guard rest ih =>
    rw [answer_passes_cons hhost hpure]
    cases hanswer : (s.evaluate guard).answer with
    | error stop =>
      obtain ⟨f, rfl⟩ := (Scope.isSteady_evaluate hhost hpure guard).exists_fault hanswer
      exact absurd (Scope.firstGuardFails_cons_iff.mpr (.inl hanswer)) (h f)
    | ok v =>
      refine (?_ : (if v.Admits then (passes s rest).answer else .ok false) = _)
      by_cases hv : v.Admits
      · have hrest := ih fun f hf =>
          h f (Scope.firstGuardFails_cons_iff.mpr (.inr ⟨⟨v, hanswer, hv⟩, hf⟩))
        have hiff : s.FirstGuardRejects (guard :: rest) ↔ s.FirstGuardRejects rest := by
          rw [Scope.firstGuardRejects_cons_iff]
          simp [Scope.Admits, hanswer, hv]
        rw [if_pos hv, hrest, decide_eq_decide.mpr (not_congr hiff)]
      · have hrejects : s.FirstGuardRejects (guard :: rest) :=
          Scope.firstGuardRejects_cons_iff.mpr (.inl ⟨v, hanswer, hv⟩)
        rw [if_neg hv, decide_eq_false (not_not.mpr hrejects)]

end

/-! ## The guards of all rows -/

section

variable {env : Environment} {c : Context} (hhost : env.host.IsPure) (hpure : c.IsPure)

include hhost hpure

theorem steady_passes_of_settled {row : Row}
    (h : ∀ f, ¬(scope env c row).FirstGuardFails guards f) :
    Steady c (passes (scope env c row) guards)
      (.ok (decide ¬(scope env c row).FirstGuardRejects guards))
      ((scope env c row).guardCalls guards) := by
  have hfirm := (isSteady_passes (s := scope env c row) hhost hpure guards).firm
  unfold Firm at hfirm
  rwa [answer_passes_of_settled (s := scope env c row) hhost hpure h,
    calls_passes (s := scope env c row) hhost hpure] at hfirm

theorem steady_passes_of_fails {row : Row} (h : (scope env c row).FirstGuardFails guards f) :
    Steady c (passes (scope env c row) guards) (.error (.fault f))
      ((scope env c row).guardCalls guards) := by
  have hfirm := (isSteady_passes (s := scope env c row) hhost hpure guards).firm
  unfold Firm at hfirm
  rwa [answer_passes_of_fails (s := scope env c row) hhost hpure h,
    calls_passes (s := scope env c row) hhost hpure] at hfirm

/-- Where no guard fails, the rows that none rejects are left. -/
theorem steady_applyGuards_of_settled {rows : List Row}
    (h : ∀ row ∈ rows, ∀ f, ¬(scope env c row).FirstGuardFails guards f) :
    Steady c (applyGuards env c guards rows)
      (.ok (rows.filter fun row => ¬(scope env c row).FirstGuardRejects guards))
      (rows.flatMap fun row => (scope env c row).guardCalls guards) := by
  induction rows with
  | nil => exact .pure _
  | cons row rest ih =>
    obtain ⟨hrow, hrest⟩ := List.forall_mem_cons.mp h
    rw [applyGuards, List.flatMap_cons, ← List.append_nil (List.flatMap _ rest)]
    refine (steady_passes_of_settled hhost hpure hrow).bind_ok ((ih hrest).bind_ok ?_)
    rw [List.filter_cons]
    exact .pure _

/-- The first guard that fails ends it, and the guards of later rows are left alone. -/
theorem steady_applyGuards_of_fails {front : List Row} {row : Row} (back : List Row)
    (hfront : ∀ other ∈ front, ∀ f, ¬(scope env c other).FirstGuardFails guards f)
    (h : (scope env c row).FirstGuardFails guards f) :
    Steady c (applyGuards env c guards (front ++ row :: back)) (.error (.fault f))
      ((front ++ [row]).flatMap fun row => (scope env c row).guardCalls guards) := by
  induction front with
  | nil =>
    rw [List.nil_append, List.nil_append, applyGuards, List.flatMap_singleton]
    exact (steady_passes_of_fails hhost hpure h).bind_error
  | cons first rest ih =>
    obtain ⟨hfirst, hrest⟩ := List.forall_mem_cons.mp hfront
    rw [List.cons_append, List.cons_append, applyGuards, List.flatMap_cons]
    exact (steady_passes_of_settled hhost hpure hfirst).bind_ok (ih hrest).bind_error

end

/-! ## What is evaluated behind the guards -/

variable {env : Environment} {c : Context}

/-- The row and the sibling that a cell stands for. -/
def entry (g : JoinGroup) (rows : List Row) (cell : Cell) : List (Row × Join) :=
  match rows[cell.row]?, g.siblings[cell.sibling]? with
  | some row, some join => [(row, join)]
  | _, _ => []

/-- The calls of a sibling's expression for a row. -/
def entryCalls (env : Environment) (c : Context) (entry : Row × Join) : List Invocation :=
  ((scope env c entry.1).evaluate entry.2.expr).calls

theorem flatMap_entry_table (g : JoinGroup) (rows : List Row) :
    ((g.table rows).map Prod.fst).flatMap (g.entry rows) = rows ×ˢ g.siblings := by
  rw [table_cells, List.flatMap_assoc]
  refine congrArg List.flatten (map_range_length fun i hi => ?_)
  have hrow : ∀ j (hj : j < g.siblings.length),
      g.entry rows ⟨i, j⟩ = [(rows[i], g.siblings[j])] := by
    intro j hj
    unfold entry
    rw [List.getElem?_eq_getElem hi, List.getElem?_eq_getElem hj]
  rw [List.flatMap_map, List.flatMap_def,
    map_range_length (g := fun join => [(rows[i], join)]) hrow, ← List.flatMap_def]
  exact List.map_eq_flatMap.symm

theorem cellCalls_eq (m : Meaning env.host c) (g : JoinGroup) (rows : List Row) (cell : Cell) :
    g.cellCalls m rows cell = (g.entry rows cell).flatMap (entryCalls env c) := by
  unfold cellCalls entry
  rcases rows[cell.row]? with - | row
  · rfl
  · rcases g.siblings[cell.sibling]? with - | join
    · rfl
    · rw [List.flatMap_singleton]
      exact ((m.steady row join.expr).calls_eq).symm

theorem flatMap_cellCalls (m : Meaning env.host c) (g : JoinGroup) (rows : List Row)
    (cells : List Cell) :
    cells.flatMap (g.cellCalls m rows) =
      (cells.flatMap (g.entry rows)).flatMap (entryCalls env c) := by
  rw [List.flatMap_assoc]
  exact congrArg (List.flatMap · cells) (funext (g.cellCalls_eq m rows))

theorem calls_eq (m : Meaning env.host c) (g : JoinGroup) (rows : List Row) :
    g.calls m rows = (rows ×ˢ g.siblings).flatMap (entryCalls env c) := by
  rw [← cell_calls, flatMap_cellCalls, flatMap_entry_table]

/-- Of what stands in the table, no entry is evaluated twice. -/
theorem subperm_entries_course (g : JoinGroup) (rows : List Row) (schedule : Schedule) :
    Subperm ((((g.progress rows).course schedule).flatMap Effect.evaluated).flatMap (g.entry rows))
      (rows ×ˢ g.siblings) := by
  have hcells := Progress.course_evaluated (p := g.progress rows) schedule
  rw [show (g.progress rows).cells = (g.table rows).map Prod.fst by simp [Progress.cells, progress]]
    at hcells
  obtain ⟨cells, hperm, hsub⟩ := hcells
  rw [← flatMap_entry_table]
  exact ⟨_, hperm.flatMap_right _, hsub.flatMap _⟩

/-- The slots of a group are those some schedule leaves, and the calls are those of entries of its
table: of all of them in their order, if no task is made. -/
theorem exists_entries_evaluateKept (m : Meaning env.host c) (g : JoinGroup) (rows : List Row)
    {w : World} (hw : c.Agrees w) :
    ∃ r w' entries, outcome (g.evaluateKept env c rows) w = (r, w') ∧
      w'.invocations = w.invocations ++ entries.flatMap (entryCalls env c) ∧
      Subperm entries (rows ×ˢ g.siblings) ∧
      (∀ slots, r = .ok slots → ∃ schedule,
        slots = g.slotsAfter m ((g.progress rows).course schedule) rows) ∧
      (g.isAsync = false → entries = rows ×ˢ g.siblings ∧ ∃ slots, r = .ok slots) := by
  unfold evaluateKept
  by_cases hasync : g.isAsync = true
  · have hnot : ¬g.isAsync = false := by rw [hasync]; exact Bool.noConfusion
    rw [if_pos hasync]
    rcases outcome_startPool_cases env g w with
      ⟨w₁, hstart, hloaded, hcalls₁, -⟩ | ⟨e, hstart⟩
    · let schedule := env.scheduler w₁.submissions (g.table rows)
      have halong := steady_evaluateAlong m g rows schedule
      obtain ⟨w₂, hout, -, hcalls₂⟩ := halong w₁ (hw.of_loaded_eq hloaded)
      refine ⟨.ok (g.slotsAfter m ((g.progress rows).course schedule) rows), w₂,
        (((g.progress rows).course schedule).flatMap Effect.evaluated).flatMap (g.entry rows),
        ?_, ?_, g.subperm_entries_course rows schedule, ?_, fun h => absurd h hnot⟩
      · rw [outcome_bind_ok hstart, outcome_bind_ok (outcome_get w₁)]
        exact hout
      · rw [hcalls₂, hcalls₁, flatMap_cellCalls]
      · intro slots hslots
        cases hslots
        exact ⟨schedule, rfl⟩
    · refine ⟨.error e, w, [], outcome_bind_error hstart, (List.append_nil _).symm,
        List.nil_subperm, ?_, fun h => absurd h hnot⟩
      intro slots hslots
      cases hslots
  · have hsync : g.isAsync = false := Bool.eq_false_iff.mpr hasync
    rw [if_neg hasync]
    obtain ⟨w₁, hout, -, hcalls⟩ := steady_evaluateRows m g rows w hw
    rw [g.calls_eq m] at hcalls
    refine ⟨.ok (g.slots m rows), w₁, rows ×ˢ g.siblings, hout, hcalls, .refl _, ?_,
      fun _ => ⟨rfl, _, rfl⟩⟩
    intro slots hslots
    cases hslots
    exact ⟨[], (slotsAfter_eq_slots m rows (g.not_dropped_of_sync rows hsync _)).symm⟩

/-! ## The rows that come out -/

theorem outcome_settle (g : JoinGroup) (rows : List Row) (slots : List (List Slot)) (w : World) :
    outcome (g.settle rows slots) w = ((g.bind rows slots).mapError .error, w) := by
  unfold settle
  cases g.bind rows slots <;> rfl

/-- Slots bind if no task was dropped and every expression has a value. -/
theorem exists_bind_eq_ok_iff (m : Meaning env.host c) (g : JoinGroup) (rows : List Row)
    (schedule : Schedule) :
    (∃ out, g.bind rows (g.slotsAfter m ((g.progress rows).course schedule) rows) = .ok out) ↔
      (∀ cell, ¬Dropped ((g.progress rows).course schedule) cell) ∧
        ∀ row ∈ rows, ∀ join ∈ g.siblings,
          ∃ v, ((scope env c row).evaluate join.expr).answer = .ok v := by
  rw [← account_course_eq_nil_iff m, ← failures_bound_slotsAfter m]
  constructor
  · rintro ⟨out, hout⟩
    by_contra hne
    rw [bind_eq_error hne] at hout
    cases hout
  · exact fun hnil => ⟨_, bind_eq_ok hnil⟩

/-- The rows that come out are the rows that went in, extended. -/
theorem extends_of_bind_eq_ok (m : Meaning env.host c) {g : JoinGroup} {rows out : List Row}
    {schedule : Schedule}
    (h : g.bind rows (g.slotsAfter m ((g.progress rows).course schedule) rows) = .ok out) :
    List.Forall₂ (g.Extends env c) rows out := by
  obtain ⟨hkept, hvalues⟩ := (exists_bind_eq_ok_iff m g rows schedule).mp ⟨out, h⟩
  have hnil := (account_course_eq_nil_iff m g rows schedule).mpr ⟨hkept, hvalues⟩
  rw [bind_eq_ok ((failures_bound_slotsAfter m rows).trans hnil),
    slotsAfter_eq_slots m rows hkept, bound_slots, List.map_map] at h
  cases h
  rw [List.forall₂_map_right_iff, List.forall₂_same]
  exact fun row hrow => extends_bindRow m g row (hvalues row hrow)

/-! ## The group -/

/-- A group takes its rows through their guards before it evaluates any sibling.

If a guard fails, the first one in the order of rows is what the group fails with, and the group ends
there: it leaves the world as its guards do. If none fails, the rows whose guards reject them are
left out, and the calls are those of the guards, row by row, and then those of siblings for the rows
that are left. No sibling is evaluated twice for a row; where no task is made each is evaluated once,
row by row, and the group succeeds if all of these have values. -/
theorem execute_gated (g : JoinGroup) (rows : List Row) {w : World} (hhost : env.host.IsPure)
    (hpure : c.IsPure) (hw : c.Agrees w) :
    let result := outcome (g.execute env c rows) w
    (∀ front row back f, rows = front ++ row :: back →
      (∀ other ∈ front, ∀ f, ¬(scope env c other).FirstGuardFails g.guards f) →
      (scope env c row).FirstGuardFails g.guards f →
      result.1 = .error (.error (.fault f)) ∧
        result.2 = (outcome (evaluated (applyGuards env c g.guards rows)) w).2 ∧
        result.2.invocations = w.invocations ++
          (front ++ [row]).flatMap fun row => (scope env c row).guardCalls g.guards) ∧
    ((∀ row ∈ rows, ∀ f, ¬(scope env c row).FirstGuardFails g.guards f) →
      let kept := rows.filter fun row => ¬(scope env c row).FirstGuardRejects g.guards
      (∀ out, result.1 = .ok out → List.Forall₂ (g.Extends env c) kept out) ∧
      ∃ entries, Subperm entries (kept ×ˢ g.siblings) ∧
        result.2.invocations = w.invocations ++
          (rows.flatMap fun row => (scope env c row).guardCalls g.guards) ++
          entries.flatMap (entryCalls env c) ∧
        (g.isAsync = false → entries = kept ×ˢ g.siblings ∧
          ((∃ out, result.1 = .ok out) ↔ ∀ row ∈ kept, ∀ join ∈ g.siblings,
            ∃ v, ((scope env c row).evaluate join.expr).answer = .ok v))) := by
  intro result
  have hresult : result = outcome (evaluated (applyGuards env c g.guards rows) >>= fun rows =>
      g.evaluateKept env c rows >>= fun slots => g.settle rows slots) w := by
    rw [← g.execute_eq]
  constructor
  · rintro front row back f rfl hfront hrow
    obtain ⟨w₁, hout, -, hcalls⟩ :=
      (steady_applyGuards_of_fails hhost hpure back hfront hrow).evaluated w hw
    rw [outcome_bind_error hout] at hresult
    rw [hresult, hout]
    exact ⟨rfl, rfl, hcalls⟩
  · intro hsettled kept
    obtain ⟨m⟩ := exists_meaning hhost hpure
    obtain ⟨w₁, hout₁, hw₁, hcalls₁⟩ :=
      (steady_applyGuards_of_settled hhost hpure hsettled).evaluated w hw
    obtain ⟨r, w₂, entries, hout₂, hcalls₂, hsub, hslots, hsync⟩ :=
      exists_entries_evaluateKept m g kept hw₁
    rw [outcome_bind_ok hout₁] at hresult
    rcases r with e | slots
    · rw [outcome_bind_error hout₂] at hresult
      rw [hresult]
      refine ⟨nofun, entries, hsub, by rw [hcalls₂, hcalls₁], fun h => ?_⟩
      obtain ⟨-, slots, hslots⟩ := hsync h
      cases hslots
    · obtain ⟨schedule, rfl⟩ := hslots slots rfl
      rw [outcome_bind_ok hout₂, outcome_settle] at hresult
      have hok : ∀ out, result.1 = .ok out ↔
          g.bind kept (g.slotsAfter m ((g.progress kept).course schedule) kept) = .ok out := by
        intro out
        rw [hresult]
        exact mapError_eq_ok_iff
      refine ⟨fun out hout => extends_of_bind_eq_ok m ((hok out).mp hout), entries, hsub, ?_, ?_⟩
      · rw [hresult, hcalls₂, hcalls₁]
      · intro h
        refine ⟨(hsync h).1, ?_⟩
        rw [exists_congr hok, exists_bind_eq_ok_iff m]
        exact and_iff_right (g.not_dropped_of_sync kept h _)

/-- The second row is rejected by the guard of the second sibling, the third by that of the first, so
that its second guard is left alone. Of the other rows the second has no value for the second guard. -/
theorem execute_gated_rejecting :
    let g : JoinGroup := ⟨[
      ⟨"a", .call (.variable "api") "echo" [.variable "x"],
        some (.call (.variable "api") "likes" [.variable "x"]), .sync⟩,
      ⟨"b", .variable "x", none, .sync⟩,
      ⟨"c", .variable "x", some (.variable "y"), .sync⟩]⟩
    let env : Environment := { host := { capability := fun _ =>
      ⟨fun _ _ => true, fun _ operation values =>
      match operation, values with
      | "likes", [.string fruit] => .returned (.bool (fruit != "plum"))
      | _, _ => .returned (values.headD .null)⟩ } }
    let c : Context := { innermost := { values := ⟨[("api", .capability ⟨0, "api"⟩)]⟩ } }
    let call (operation fruit : String) : Invocation := ⟨⟨0, "api"⟩, operation, [.string fruit]⟩
    let pear : Row := ⟨0, [("x", .string "pear"), ("y", .int 1)]⟩
    let rows : List Row := [pear, ⟨1, [("x", .string "fig"), ("y", .null)]⟩,
      ⟨2, [("x", .string "plum"), ("y", .int 1)]⟩]
    let others : List Row := [pear, ⟨1, [("x", .string "fig")]⟩, pear]
    (∃ out, (outcome (g.execute env c rows) {}).1 = .ok out ∧
      List.Forall₂ (g.Extends env c) [pear] out) ∧
    (outcome (g.execute env c rows) {}).2.invocations =
      [call "likes" "pear", call "likes" "fig", call "likes" "plum", call "echo" "pear"] ∧
    (outcome (g.execute env c others) {}).1 =
      .error (.error (.fault (.unresolved (.undefined "y")))) ∧
    (outcome (g.execute env c others) {}).2.invocations =
      [call "likes" "pear", call "likes" "fig"] := by
  intro g env c call pear rows others
  have hhost : env.host.IsPure := ⟨fun _ _ => rfl, fun _ _ _ _ => rfl⟩
  have hpure : c.IsPure := fun _ h => by cases h
  have hw : c.Agrees {} := Context.agrees_of_loaded_nil rfl
  have hpasses : ∀ row ∈ rows, ∃ passed, (passes (scope env c row) g.guards).answer = .ok passed := by
    intro row hrow
    simp only [rows, List.mem_cons, List.not_mem_nil, or_false] at hrow
    rcases hrow with rfl | rfl | rfl <;> exact ⟨_, rfl⟩
  have hsettled : ∀ row ∈ rows, ∀ f, ¬(scope env c row).FirstGuardFails g.guards f := by
    intro row hrow f hf
    obtain ⟨passed, hpassed⟩ := hpasses row hrow
    rw [answer_passes_of_fails (s := scope env c row) hhost hpure hf] at hpassed
    cases hpassed
  obtain ⟨hextends, entries, -, hcalls, hsync⟩ := (execute_gated g rows hhost hpure hw).2 hsettled
  obtain ⟨rfl, hok⟩ := hsync rfl
  have hvalues : ∀ row ∈ [pear], ∀ join ∈ g.siblings,
      ∃ v, ((scope env c row).evaluate join.expr).answer = .ok v :=
    List.forall_mem_singleton.mpr <| List.forall_mem_cons.mpr ⟨⟨_, rfl⟩,
      List.forall_mem_cons.mpr ⟨⟨_, rfl⟩, List.forall_mem_singleton.mpr ⟨_, rfl⟩⟩⟩
  obtain ⟨out, hout⟩ := hok.mpr hvalues
  have hothers : ∀ f, ¬(scope env c pear).FirstGuardFails g.guards f :=
    hsettled pear List.mem_cons_self
  have hfails : (scope env c others[1]).FirstGuardFails g.guards (.unresolved (.undefined "y")) :=
    firstGuardFails_of_passes (s := scope env c others[1]) hhost hpure rfl
  obtain ⟨herror, -, hcalls'⟩ := (execute_gated g others hhost hpure hw).1 [pear] _ [pear] _ rfl
    (List.forall_mem_singleton.mpr hothers) hfails
  exact ⟨⟨out, hout, hextends out hout⟩, hcalls, herror, hcalls'⟩

end JoinGroup
end RowQuery
