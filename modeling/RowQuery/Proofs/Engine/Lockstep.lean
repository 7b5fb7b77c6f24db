import RowQuery.Proofs.Engine.Independence
import RowQuery.Proofs.Evaluation.Lockstep

/-!
# Queries in lockstep

`Query.freeNames` are the names a query looks up in its context: its source, and every name an
expression mentions where no alias in scope has that name. Under a coupling of two contexts for
these names the whole query goes in lockstep (`Coupling.execute`), tasks of executors included: the
worlds agree on what was submitted, so the scheduler says the same.

A stage may rely on every alias before it, because a row that came through a group has all aliases
of the group bound.
-/

set_option autoImplicit false

namespace RowQuery

open Run

/-! ## Names looked up in the context -/

/-- With these aliases in scope before the first stage, the names that stages mention where no alias
has that name. -/
def freeNames : List String → List Stage → List String
  | _, [] => []
  | scope, stage :: rest =>
    stage.names.filter (· ∉ scope) ++ freeNames (scope ++ stage.aliases) rest

/-- The names a query looks up in its context. -/
def Query.freeNames (q : Query) : List String :=
  q.source.name :: RowQuery.freeNames [q.source.aliasName] q.stages

theorem freeNames_append (front back : List Stage) : ∀ scope : List String,
    freeNames scope (front ++ back) =
      freeNames scope front ++ freeNames (scope ++ front.flatMap Stage.aliases) back := by
  induction front with
  | nil =>
    intro scope
    rw [List.flatMap_nil, List.append_nil]
    rfl
  | cons stage rest ih =>
    intro scope
    rw [List.cons_append, freeNames, freeNames, ih, List.flatMap_cons, List.append_assoc,
      List.append_assoc]

/-- Every row has the names bound. -/
def Bound (scope : List String) (rows : List Row) : Prop :=
  ∀ row ∈ rows, ∀ name ∈ scope, (row.get? name).isSome

/-- Names that are free in a stage are covered by rows that have bound what is in scope. -/
theorem Bound.covers {scope others names : List String} {rows : List Row} (hrows : Bound scope rows)
    (h : names.filter (· ∉ scope) ⊆ others) {row : Row} (hrow : row ∈ rows) :
    row.Covers others names := by
  intro name hname
  by_cases hscope : name ∈ scope
  · exact .inl (hrows row hrow name hscope)
  · exact .inr (h (List.mem_filter.mpr ⟨hname, decide_eq_true hscope⟩))

theorem bound_iff_alike {scope : List String} {rows : List Row} :
    Bound scope rows ↔ List.Forall₂ (Alike scope) rows rows := by
  rw [List.forall₂_same]
  exact ⟨fun h row hrow => ⟨rfl, h row hrow⟩, fun h row hrow => (h row hrow).bound⟩

/-! ## A group -/

namespace JoinGroup

variable {env : Environment} {c : Context}

theorem yields_evaluateRow (s : Scope) (joins : List Join) :
    Yields (·.length = joins.length) (evaluateRow s joins) := by
  induction joins with
  | nil => exact .pure rfl
  | cons join rest ih =>
    refine .bind_free fun outcome => ih.bind fun slots hslots => .pure ?_
    rw [List.length_cons, List.length_cons, hslots]

theorem yields_evaluateRows (g : JoinGroup) (rows : List Row) :
    Yields (∀ slots ∈ ·, slots.length = g.siblings.length) (evaluateRows env c g rows) := by
  induction rows with
  | nil => exact .pure nofun
  | cons row rest ih =>
    exact (yields_evaluateRow _ g.siblings).bind fun slots hslots =>
      ih.bind fun rest hrest => .pure (List.forall_mem_cons.mpr ⟨hslots, hrest⟩)

theorem yields_evaluateAlong (g : JoinGroup) (rows : List Row) (schedule : Schedule) :
    Yields (∀ slots ∈ ·, slots.length = g.siblings.length)
      (evaluateAlong env c g rows schedule) := by
  refine .bind_free fun outcomes => .pure fun slots hslots => ?_
  obtain ⟨i, -, rfl⟩ := List.mem_map.mp hslots
  rw [List.length_map, List.length_range]

theorem yields_evaluateKept (g : JoinGroup) (rows : List Row) :
    Yields (∀ slots ∈ ·, slots.length = g.siblings.length) (g.evaluateKept env c rows) := by
  unfold evaluateKept
  split
  · exact .bind_free fun _ => .bind_free fun _ => g.yields_evaluateAlong rows _
  · exact g.yields_evaluateRows rows

/-- Rows settle only with all siblings bound. -/
theorem yields_settle (g : JoinGroup) {scope : List String} {rows : List Row}
    {slots : List (List Slot)} (hrows : Bound scope rows)
    (hslots : ∀ s ∈ slots, s.length = g.siblings.length) :
    Yields (Bound (scope ++ g.siblings.map Join.aliasName)) (g.settle rows slots) := by
  obtain ⟨-, halike⟩ := g.bound_alike (bound_iff_alike.mp hrows) hslots
  unfold settle
  by_cases h : (g.bound rows slots).flatMap Prod.snd = []
  · rw [bind_eq_ok h]
    exact .pure (bound_iff_alike.mpr (halike h))
  · rw [bind_eq_error h]
    exact .throw _

/-- Rows that came through a group have its aliases bound. -/
theorem yields_execute (g : JoinGroup) {scope : List String} {rows : List Row}
    (hrows : Bound scope rows) :
    Yields (Bound (scope ++ g.siblings.map Join.aliasName)) (g.execute env c rows) := by
  rw [execute_eq, applyGuards_eq_sift]
  refine (Yields.sift_keepIf _ rows).evaluated.bind fun kept hkept => ?_
  refine (g.yields_evaluateKept kept).bind fun slots hslots => ?_
  exact g.yields_settle (fun row hrow => hrows row (hkept hrow)) hslots

end JoinGroup

namespace Coupling

variable {env : Environment} {c c' : Context} {others : List String} {R : World → World → Prop}

theorem applyGuards (k : Coupling c c' others R) (env : Environment) (guards : List Expr)
    {rows : List Row} (h : ∀ row ∈ rows, row.Covers others (guards.flatMap Expr.names)) :
    Lockstep R (JoinGroup.applyGuards env c guards rows)
      (JoinGroup.applyGuards env c' guards rows) := by
  rw [applyGuards_eq_sift, applyGuards_eq_sift]
  exact .sift fun row hrow => .keepIf (k.passes guards (h row hrow))

section Dispatch

variable (k : Coupling c c' others R) (g : JoinGroup) {rows : List Row}
  (h : ∀ row ∈ rows, row.Covers others (g.siblings.flatMap fun join => join.expr.names))

include k h

theorem evaluateRows :
    Lockstep R (JoinGroup.evaluateRows env c g rows) (JoinGroup.evaluateRows env c' g rows) := by
  induction rows with
  | nil => exact .pure _
  | cons row rest ih =>
    obtain ⟨hrow, hrest⟩ := List.forall_mem_cons.mp h
    exact (k.evaluateRow g.siblings hrow).bind fun _ => (ih hrest).bind fun _ => .pure _

variable (env) in
/-- The evaluations of a cell, where there is one. -/
theorem evaluateCell (cell : Cell) :
    Option.Rel (Lockstep R) (JoinGroup.evaluateCell env c g rows cell)
      (JoinGroup.evaluateCell env c' g rows cell) := by
  unfold JoinGroup.evaluateCell
  rcases hrow : rows[cell.row]? with - | row
  · exact .none
  · rcases hjoin : g.siblings[cell.sibling]? with - | join
    · exact .none
    · refine .some (k.evaluate join.expr fun name hname => ?_)
      refine h row (List.mem_of_getElem? hrow) name ?_
      exact List.mem_flatMap.mpr ⟨join, List.mem_of_getElem? hjoin, hname⟩

theorem perform (outcomes : JoinGroup.Outcomes) (effect : Effect) :
    Lockstep R (JoinGroup.perform env c g rows outcomes effect)
      (JoinGroup.perform env c' g rows outcomes effect) := by
  cases effect with
  | nothing => exact .pure _
  | submit cell executor =>
    refine .bind (fun w w' hw => ⟨rfl, ?_⟩) fun _ => .pure _
    show R { w with submissions := w.submissions ++ [executor] }
      { w' with submissions := w'.submissions ++ [executor] }
    rw [k.invocations hw, k.submissions hw, k.poolStarted hw]
    exact k.update hw _ _ _
  | evaluate cell =>
    have hcell := k.evaluateCell env g h cell
    unfold JoinGroup.perform
    dsimp only
    revert hcell
    generalize JoinGroup.evaluateCell env c g rows cell = evaluation
    generalize JoinGroup.evaluateCell env c' g rows cell = evaluation'
    rintro (hcell | -)
    · exact hcell.settled.bind fun _ => .pure _
    · exact .pure _
  | work cell =>
    have hcell := k.evaluateCell env g h cell
    unfold JoinGroup.perform
    dsimp only
    revert hcell
    generalize JoinGroup.evaluateCell env c g rows cell = evaluation
    generalize JoinGroup.evaluateCell env c' g rows cell = evaluation'
    rintro (hcell | -)
    · refine hcell.bind_run fun r => ?_
      rcases r with (f | _) | v <;> exact .pure _
    · exact .pure _

theorem performAll (effects : List Effect) : ∀ outcomes : JoinGroup.Outcomes,
    Lockstep R (JoinGroup.performAll env c g rows outcomes effects)
      (JoinGroup.performAll env c' g rows outcomes effects) := by
  induction effects with
  | nil => exact fun _ => .pure _
  | cons effect rest ih => exact fun outcomes => (k.perform g h outcomes effect).bind ih

theorem evaluateAlong (schedule : Schedule) :
    Lockstep R (JoinGroup.evaluateAlong env c g rows schedule)
      (JoinGroup.evaluateAlong env c' g rows schedule) :=
  (k.performAll g h _ _).bind fun _ => .pure _

omit h

theorem startPool : Lockstep R (JoinGroup.startPool env g) (JoinGroup.startPool env g) := by
  intro w w' hw
  unfold JoinGroup.startPool
  rw [outcome_bind_ok (outcome_get w), outcome_bind_ok (outcome_get w'), ← k.poolStarted hw]
  split
  · cases env.poolFailure with
    | some reason => exact ⟨rfl, hw⟩
    | none =>
      refine ⟨rfl, ?_⟩
      show R { w with poolStarted := true } { w' with poolStarted := true }
      rw [k.invocations hw, k.submissions hw]
      exact k.update hw _ _ _
  · exact ⟨rfl, hw⟩

include h

theorem evaluateKept :
    Lockstep R (g.evaluateKept env c rows) (g.evaluateKept env c' rows) := by
  unfold JoinGroup.evaluateKept
  split
  · refine (k.startPool g).bind fun _ w w' hw => ?_
    -- the scheduler is asked with what has been submitted, which is the same
    rw [outcome_bind_ok (outcome_get w), outcome_bind_ok (outcome_get w'), k.submissions hw]
    exact k.evaluateAlong g h _ w w' hw
  · exact k.evaluateRows g h

end Dispatch

theorem settle (g : JoinGroup) (rows : List Row) (slots : List (List JoinGroup.Slot)) :
    Lockstep R (g.settle rows slots) (g.settle rows slots) := by
  unfold JoinGroup.settle
  split
  · exact .pure _
  · exact .throw _

theorem executeGroup (k : Coupling c c' others R) (g : JoinGroup) {scope : List String}
    {rows : List Row} (hrows : Bound scope rows)
    (hguards : (Stage.guards g).names.filter (· ∉ scope) ⊆ others)
    (hexprs : (Stage.dispatch g).names.filter (· ∉ scope) ⊆ others) :
    Lockstep R (g.execute env c rows) (g.execute env c' rows) := by
  rw [JoinGroup.execute_eq, JoinGroup.execute_eq]
  have hgate := (k.applyGuards env g.guards fun _ => hrows.covers hguards).evaluated
  have hkeeps : Yields (· ⊆ rows) (evaluated (JoinGroup.applyGuards env c g.guards rows)) := by
    rw [applyGuards_eq_sift]
    exact (Yields.sift_keepIf _ rows).evaluated
  refine hgate.bind_of_yields hkeeps ?_
  intro kept hkept
  have hcovers : ∀ row ∈ kept, row.Covers others (Stage.dispatch g).names :=
    fun row hrow => hrows.covers hexprs (hkept hrow)
  exact (k.evaluateKept g hcovers).bind fun slots => settle g kept slots

end Coupling

/-! ## A query -/

/-- The stages of groups. -/
def groupStages (groups : List JoinGroup) : List Stage :=
  groups.flatMap fun g => [.guards g, .dispatch g]

theorem groupStages_cons (g : JoinGroup) (rest : List JoinGroup) :
    groupStages (g :: rest) = .guards g :: .dispatch g :: groupStages rest := rfl

/-- What is free in the stages of a group and of those behind it. -/
theorem freeNames_groupStages_cons (scope : List String) (g : JoinGroup) (rest : List JoinGroup) :
    freeNames scope (groupStages (g :: rest)) =
      (Stage.guards g).names.filter (· ∉ scope) ++ ((Stage.dispatch g).names.filter (· ∉ scope) ++
        freeNames (scope ++ g.siblings.map Join.aliasName) (groupStages rest)) := by
  have haliases : (Stage.guards g).aliases = [] := rfl
  rw [groupStages_cons, freeNames, freeNames, haliases, List.append_nil]
  rfl

theorem aliases_groupStages_cons (g : JoinGroup) (rest : List JoinGroup) :
    (groupStages (g :: rest)).flatMap Stage.aliases =
      g.siblings.map Join.aliasName ++ (groupStages rest).flatMap Stage.aliases := rfl

namespace Query

variable {env : Environment} {c : Context}

theorem stages_eq (q : Query) : q.stages = groupStages q.groups ++
    (q.restriction.toList.map .restriction ++ [.projection q.projection]) :=
  List.append_assoc _ _ _

theorem yields_bindSource (source : Source) :
    Yields (Bound [source.aliasName]) (bindSource source c) := by
  unfold bindSource
  refine .bind_free fun answer => ?_
  split
  · exact .throw _
  · exact .throw _
  · refine .pure fun row hrow => ?_
    obtain ⟨i, hi, rfl⟩ := List.mem_mapIdx.mp hrow
    exact (alike_ofElement i i source.aliasName _).bound
  · refine .pure fun row hrow => ?_
    cases List.mem_singleton.mp hrow
    exact (alike_ofElement 0 0 source.aliasName _).bound

theorem yields_executeGroups (groups : List JoinGroup) : ∀ {scope : List String} {rows : List Row},
    Bound scope rows → Yields (Bound (scope ++ (groupStages groups).flatMap Stage.aliases))
      (executeGroups env c groups rows) := by
  induction groups with
  | nil =>
    intro scope rows hrows
    refine .pure ?_
    rwa [show (groupStages []).flatMap Stage.aliases = [] from rfl, List.append_nil]
  | cons g rest ih =>
    intro scope rows hrows
    rw [aliases_groupStages_cons, ← List.append_assoc]
    exact (g.yields_execute hrows).bind fun _ hrows => ih hrows

theorem yields_selectRows (q : Query) {scope : List String} {rows : List Row}
    (hrows : Bound scope rows) : Yields (Bound scope) (q.selectRows env c rows) := by
  unfold selectRows
  split
  · exact .pure hrows
  · rw [restrict_eq_sift]
    intro w kept w' hout row hrow
    exact hrows row ((Yields.sift_keepIf _ rows).evaluated w kept w' hout hrow)

end Query

namespace Coupling

variable {env : Environment} {c c' : Context} {others : List String} {R : World → World → Prop}

theorem bindSource (k : Coupling c c' others R) (source : Source) (h : source.name ∈ others) :
    Lockstep R (Query.bindSource source c) (Query.bindSource source c') := by
  unfold Query.bindSource
  refine (k.lookup source.name h).evaluated.bind fun answer => ?_
  split
  · exact .throw _
  · exact .throw _
  · exact .pure _
  · exact .pure _

theorem executeGroups (k : Coupling c c' others R) (groups : List JoinGroup) :
    ∀ {scope : List String} {rows : List Row}, Bound scope rows →
      freeNames scope (groupStages groups) ⊆ others →
      Lockstep R (Query.executeGroups env c groups rows)
        (Query.executeGroups env c' groups rows) := by
  induction groups with
  | nil => exact fun _ _ => .pure _
  | cons g rest ih =>
    intro scope rows hrows hnames
    rw [freeNames_groupStages_cons, List.append_subset, List.append_subset] at hnames
    obtain ⟨hguards, hexprs, hrest⟩ := hnames
    exact (k.executeGroup g hrows hguards hexprs).bind_of_yields (g.yields_execute hrows)
      fun rows hrows => ih hrows hrest

theorem selectRows (k : Coupling c c' others R) (q : Query) {scope : List String}
    {rows : List Row} (hrows : Bound scope rows)
    (hnames : freeNames scope (q.restriction.toList.map .restriction) ⊆ others) :
    Lockstep R (q.selectRows env c rows) (q.selectRows env c' rows) := by
  unfold Query.selectRows
  cases hr : q.restriction with
  | none => exact .pure _
  | some r =>
    rw [hr] at hnames
    have hfree := (List.append_subset.mp hnames).1
    dsimp only
    rw [restrict_eq_sift, restrict_eq_sift]
    refine Lockstep.evaluated (.sift fun row hrow => .keepIf ?_)
    exact k.satisfies r (hrows.covers hfree hrow)

theorem projectAll (k : Coupling c c' others R) (p : Projection) {scope : List String}
    {rows : List Row} (hrows : Bound scope rows)
    (hnames : freeNames scope [.projection p] ⊆ others) :
    Lockstep R (Query.projectAll env c p rows) (Query.projectAll env c' p rows) := by
  have hfree := (List.append_subset.mp hnames).1
  rw [projectAll_eq_sift, projectAll_eq_sift]
  refine .sift fun row hrow => .bind ?_ fun _ => .pure _
  exact k.projectOnto p (hrows.covers hfree hrow) _

/-- A query goes in lockstep in contexts that are coupled for its free names. -/
theorem execute (k : Coupling c c' others R) (q : Query) (h : q.freeNames ⊆ others) :
    Lockstep R (q.execute env c) (q.execute env c') := by
  obtain ⟨hsource, hstages⟩ := List.cons_subset.mp h
  rw [q.stages_eq, freeNames_append, freeNames_append, List.append_subset,
    List.append_subset] at hstages
  obtain ⟨hgroups, hrestriction, hprojection⟩ := hstages
  have haliases : (q.restriction.toList.map Stage.restriction).flatMap Stage.aliases = [] := by
    cases q.restriction <;> rfl
  rw [haliases, List.append_nil] at hprojection
  rw [Query.execute_eq, Query.execute_eq]
  refine (k.bindSource q.source hsource).bind_of_yields (Query.yields_bindSource q.source) ?_
  intro rows hrows
  refine (k.executeGroups q.groups hrows hgroups).bind_of_yields
    (Query.yields_executeGroups q.groups hrows) ?_
  intro rows hrows
  refine (k.selectRows q hrows hrestriction).bind_of_yields (q.yields_selectRows hrows) ?_
  intro rows hrows
  exact (k.projectAll q.projection hrows hprojection).evaluated

end Coupling
end RowQuery
