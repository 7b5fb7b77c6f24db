import RowQuery.Engine
import RowQuery.Proofs.Join.Outcomes

/-!
# Concurrency is not observable

`Query.sequential` is the query with every join evaluated in the course of the query. With a pure
host and pure loaders, a pool that starts and executors that run what they are handed, a query ends
as its sequential form does, with the same calls in some order (`Query.execute_sequential`). Which
schedules are met on the way depends on the run, and so does what is asked of them (`RunsTasks`).

The comparison is `Follows`: one side is run from one world, under a condition on it, the other from
anywhere. It is closed under sequencing, and so it is proved stage by stage.
-/

set_option autoImplicit false

namespace RowQuery

open Run

/-! ## Following -/

/-- From a world that agrees and where `p` holds, `m` ends as `m'` does wherever that is run, and
makes the calls of `m'` in some order. -/
def Follows {ε α : Type} (c : Context) (p : World → Prop) (m m' : Run ε α) : Prop :=
  ∃ (r : Except ε α) (calls : List Invocation), Steady c m' r calls ∧
    ∀ w, c.Agrees w → p w → ∃ made : List Invocation, made.Perm calls ∧ Ends c m w r made

namespace Follows

variable {ε α β : Type} {c : Context} {p : World → Prop} {m m' : Run ε α}

theorem of_steady {r : Except ε α} {calls : List Invocation} (h : Steady c m r calls) :
    Follows c p m m :=
  ⟨r, calls, h, fun w hw _ => ⟨calls, .refl _, h w hw⟩⟩

theorem of_isSteady {e : Evaluation α} {p : World → Prop} (h : IsSteady c e) :
    Follows c p (evaluated e) (evaluated e) := by
  obtain ⟨r, calls, h⟩ := h
  exact of_steady h.evaluated

/-- What is asked of the world of the second step is asked wherever the first one ends. -/
theorem bind {q : α → World → Prop} {f f' : α → Run ε β} (hm : Follows c p m m')
    (hf : ∀ a, Follows c (q a) (f a) (f' a)) :
    Follows c (fun w => p w ∧ ∀ a w', outcome m w = (.ok a, w') → q a w')
      (m >>= f) (m' >>= f') := by
  obtain ⟨r, calls, hsteady, hm⟩ := hm
  cases r with
  | error e =>
    refine ⟨.error e, calls, hsteady.bind_error, fun w hw hp => ?_⟩
    obtain ⟨made, hmade, w', hout, hagree, hcalls⟩ := hm w hw hp.1
    exact ⟨made, hmade, w', outcome_bind_error hout, hagree, hcalls⟩
  | ok a =>
    obtain ⟨r, more, hrest, hf⟩ := hf a
    refine ⟨r, calls ++ more, hsteady.bind_ok hrest, fun w hw hp => ?_⟩
    obtain ⟨made₁, hmade₁, w₁, hout₁, hagree₁, hcalls₁⟩ := hm w hw hp.1
    obtain ⟨made₂, hmade₂, w₂, hout₂, hagree₂, hcalls₂⟩ := hf w₁ hagree₁ (hp.2 a w₁ hout₁)
    refine ⟨made₁ ++ made₂, hmade₁.append hmade₂, w₂, ?_, hagree₂, ?_⟩
    · rw [outcome_bind_ok hout₁, hout₂]
    · rw [hcalls₂, hcalls₁, List.append_assoc]

theorem imp {p' : World → Prop} (h : Follows c p m m') (hp : ∀ w, p' w → p w) :
    Follows c p' m m' := by
  obtain ⟨r, calls, hsteady, hm⟩ := h
  exact ⟨r, calls, hsteady, fun w hw hw' => hm w hw (hp w hw')⟩

/-- A second step of which nothing is asked. -/
theorem bind_free {f f' : α → Run ε β} (hm : Follows c p m m')
    (hf : ∀ a, Follows c (fun _ => True) (f a) (f' a)) : Follows c p (m >>= f) (m' >>= f') :=
  (hm.bind hf).imp fun _ hp => ⟨hp, fun _ _ _ => trivial⟩

end Follows

/-! ## The sequential form -/

def Join.sequential (join : Join) : Join := { join with dispatch := .sync }

def JoinGroup.sequential (g : JoinGroup) : JoinGroup := ⟨g.siblings.map Join.sequential⟩

/-- The query with every join evaluated in its course. -/
def Query.sequential (q : Query) : Query := { q with groups := q.groups.map JoinGroup.sequential }

namespace JoinGroup

variable {env : Environment} {c : Context} (g : JoinGroup)

theorem guards_sequential : g.sequential.guards = g.guards := by
  unfold guards sequential
  rw [List.filterMap_map]
  rfl

theorem isAsync_sequential : g.sequential.isAsync = false := by
  unfold isAsync sequential
  rw [List.any_map]
  exact List.any_eq_false.mpr fun _ _ => Bool.false_ne_true

theorem slots_sequential (m : Meaning env.host c) (rows : List Row) :
    g.sequential.slots m rows = g.slots m rows := by
  unfold slots sequential
  refine List.map_congr_left fun row _ => ?_
  rw [List.map_map]
  rfl

theorem calls_sequential (m : Meaning env.host c) (rows : List Row) :
    g.sequential.calls m rows = g.calls m rows := by
  unfold calls sequential
  refine congrArg (List.flatMap · rows) (funext fun row => ?_)
  rw [List.flatMap_map]
  rfl

theorem bindRow_sequential (joins : List Join) : ∀ (row : Row) (slots : List Slot),
    bindRow row (joins.map Join.sequential) slots = bindRow row joins slots := by
  induction joins with
  | nil => exact fun _ _ => rfl
  | cons join rest ih =>
    intro row slots
    cases slots with
    | nil => rfl
    | cons slot slots =>
      rw [List.map_cons]
      unfold bindRow
      rcases slot with - | (f | v)
      · rw [ih]
        rfl
      · rw [ih]
        rfl
      · exact ih _ _

theorem bind_sequential (rows : List Row) (slots : List (List Slot)) :
    g.sequential.bind rows slots = g.bind rows slots := by
  unfold bind
  have h : (fun row slots => bindRow row g.sequential.siblings slots) =
      fun row slots => bindRow row g.siblings slots :=
    funext fun row => funext fun slots => bindRow_sequential g.siblings row slots
  rw [h]

/-! ## One group -/

/-- Started in this world, the group meets a schedule that runs each of its tasks once. -/
def RunsTasks (env : Environment) (c : Context) (g : JoinGroup) (rows : List Row) (w : World) :
    Prop :=
  ∀ kept w', outcome (evaluated (applyGuards env c g.guards rows)) w = (.ok kept, w') →
    RunsEach ((g.progress kept).course (env.scheduler w'.submissions (g.table kept)))

theorem outcome_startPool (hpool : env.poolFailure = none) (w : World) :
    ∃ w', outcome (startPool env g) w = (.ok (), w') ∧ w'.loaded = w.loaded ∧
      w'.invocations = w.invocations ∧ w'.submissions = w.submissions := by
  unfold startPool
  rw [outcome_bind_ok (outcome_get w)]
  split
  · rw [hpool]
    exact ⟨{ w with poolStarted := true }, rfl, rfl, rfl, rfl⟩
  · exact ⟨w, rfl, rfl, rfl, rfl⟩

/-- If the pool cannot start nothing has been done. -/
theorem outcome_startPool_cases (env : Environment) (g : JoinGroup) (w : World) :
    (∃ w', outcome (startPool env g) w = (.ok (), w') ∧ w'.loaded = w.loaded ∧
      w'.invocations = w.invocations ∧ w'.submissions = w.submissions) ∨
    ∃ e, outcome (startPool env g) w = (.error e, w) := by
  cases hpool : env.poolFailure with
  | none => exact .inl (outcome_startPool g hpool w)
  | some reason =>
    unfold startPool
    rw [outcome_bind_ok (outcome_get w)]
    split
    · rw [hpool]
      exact .inr ⟨_, rfl⟩
    · exact .inl ⟨w, rfl, rfl, rfl, rfl⟩

/-- The slots of the rows that passed the guards. -/
def evaluateKept (env : Environment) (c : Context) (g : JoinGroup) (rows : List Row) :
    Execution (List (List Slot)) :=
  if g.isAsync then do
    startPool env g
    evaluateAlong env c g rows (env.scheduler (← get).submissions (g.table rows))
  else evaluateRows env c g rows

/-- The rows of settled slots. -/
def settle (g : JoinGroup) (rows : List Row) (slots : List (List Slot)) : Execution (List Row) :=
  match g.bind rows slots with
  | .ok rows => pure rows
  | .error e => abort e

theorem execute_eq (rows : List Row) : g.execute env c rows = (do
    let rows ← evaluated (applyGuards env c g.guards rows)
    let slots ← g.evaluateKept env c rows
    g.settle rows slots) := by
  unfold execute evaluateKept
  refine bind_congr fun rows => ?_
  split
  · rw [bind_assoc]
    refine bind_congr fun _ => ?_
    rw [bind_assoc]
    rfl
  · rfl

theorem follows_evaluateKept (m : Meaning env.host c) (hpool : env.poolFailure = none)
    (rows : List Row) :
    Follows c (fun w => RunsEach ((g.progress rows).course
        (env.scheduler w.submissions (g.table rows))))
      (g.evaluateKept env c rows) (g.sequential.evaluateKept env c rows) := by
  have hsteady := steady_evaluateRows m g.sequential rows
  rw [slots_sequential, calls_sequential] at hsteady
  unfold evaluateKept
  refine ⟨.ok (g.slots m rows), g.calls m rows, ?_, ?_⟩
  · rw [isAsync_sequential, if_neg Bool.false_ne_true]
    exact hsteady
  · intro w hw hruns
    split
    · -- starting the pool changes nothing that an evaluation or the scheduler looks at
      obtain ⟨w₁, hstart, hloaded, hcalls₁, hsubmissions⟩ := outcome_startPool g hpool w
      obtain ⟨made, hmade, halong⟩ := steady_evaluateAlong_of_runsEach m g rows hruns
      obtain ⟨w₂, hout, hagree, hcalls₂⟩ := halong w₁ (hw.of_loaded_eq hloaded)
      refine ⟨made, hmade, w₂, ?_, hagree, by rw [hcalls₂, hcalls₁]⟩
      rw [outcome_bind_ok hstart, outcome_bind_ok (outcome_get w₁), hsubmissions]
      exact hout
    · exact ⟨_, .refl _, steady_evaluateRows m g rows w hw⟩

theorem follows_settle {p : World → Prop} (rows : List Row) (slots : List (List Slot)) :
    Follows c p (g.settle rows slots) (g.sequential.settle rows slots) := by
  unfold settle
  rw [bind_sequential]
  split
  · exact .of_steady (.pure _)
  · exact .of_steady (.throw _)

theorem follows_execute (hhost : env.host.IsPure) (hpure : c.IsPure)
    (hpool : env.poolFailure = none) (rows : List Row) :
    Follows c (g.RunsTasks env c rows) (g.execute env c rows) (g.sequential.execute env c rows) := by
  obtain ⟨m⟩ := exists_meaning hhost hpure
  have hguards : Follows c (fun _ => True) (evaluated (applyGuards env c g.guards rows))
      (evaluated (applyGuards env c g.guards rows)) :=
    .of_isSteady (isSteady_applyGuards hhost hpure g.guards rows)
  rw [execute_eq, execute_eq, guards_sequential]
  have h := hguards.bind fun kept => (g.follows_evaluateKept m hpool kept).bind_free fun slots =>
    g.follows_settle kept slots
  exact h.imp fun w hruns => ⟨trivial, hruns⟩

end JoinGroup

/-! ## A whole query -/

namespace Query

variable {env : Environment} {c : Context}

/-- Started in this world, each of the groups in turn meets a schedule that runs its tasks. -/
def GroupsRunTasks (env : Environment) (c : Context) : List JoinGroup → List Row → World → Prop
  | [], _, _ => True
  | g :: rest, rows, w => g.RunsTasks env c rows w ∧ ∀ rows' w',
      outcome (g.execute env c rows) w = (.ok rows', w') → GroupsRunTasks env c rest rows' w'

/-- Run from this world, every executor of the query runs each task it is handed, once. -/
def RunsTasks (env : Environment) (c : Context) (q : Query) (w : World) : Prop :=
  ∀ rows w', outcome (bindSource q.source c) w = (.ok rows, w') →
    GroupsRunTasks env c q.groups rows w'

theorem follows_executeGroups (hhost : env.host.IsPure) (hpure : c.IsPure)
    (hpool : env.poolFailure = none) (groups : List JoinGroup) : ∀ rows : List Row,
    Follows c (GroupsRunTasks env c groups rows) (executeGroups env c groups rows)
      (executeGroups env c (groups.map JoinGroup.sequential) rows) := by
  induction groups with
  | nil => exact fun rows => .of_steady (.pure rows)
  | cons g rest ih =>
    intro rows
    exact (g.follows_execute hhost hpure hpool rows).bind fun rows => ih rows

theorem isSteady_restrict (hhost : env.host.IsPure) (hpure : c.IsPure) (r : Restriction)
    (rows : List Row) : IsSteady c (restrict env c r rows) :=
  (Scope.evaluationClosed_isSteady hhost hpure).restrict r rows

theorem isSteady_projectAll (hhost : env.host.IsPure) (hpure : c.IsPure) (projection : Projection)
    (rows : List Row) : IsSteady c (projectAll env c projection rows) :=
  (Scope.evaluationClosed_isSteady hhost hpure).projectAll projection rows

theorem follows_bindSource (hpure : c.IsPure) (source : Source) :
    Follows c (fun _ => True) (bindSource source c) (bindSource source c) := by
  have hget : Follows c (fun _ => True) (evaluated (c.get? source.name))
      (evaluated (c.get? source.name)) :=
    .of_isSteady (Context.isSteady_get? hpure source.name)
  refine hget.bind_free fun answer => ?_
  split
  · exact .of_steady (.throw _)
  · exact .of_steady (.throw _)
  · exact .of_steady (.pure _)
  · exact .of_steady (.pure _)

/-- The rows of `where`, if the query has one. -/
def selectRows (env : Environment) (c : Context) (q : Query) (rows : List Row) :
    Execution (List Row) :=
  match q.restriction with
  | none => pure rows
  | some r => evaluated (restrict env c r rows)

theorem execute_eq (q : Query) : q.execute env c = (do
    let rows ← bindSource q.source c
    let rows ← executeGroups env c q.groups rows
    let rows ← q.selectRows env c rows
    evaluated (projectAll env c q.projection rows)) := by
  unfold execute selectRows
  refine bind_congr fun rows => bind_congr fun rows => ?_
  cases q.restriction <;> rfl

/-- The stages after the groups have nothing to do with executors. -/
theorem follows_selectRows (hhost : env.host.IsPure) (hpure : c.IsPure) (q : Query)
    (rows : List Row) :
    Follows c (fun _ => True) (q.selectRows env c rows) (q.sequential.selectRows env c rows) := by
  unfold selectRows sequential
  dsimp only
  split
  · exact .of_steady (.pure _)
  · exact .of_isSteady (isSteady_restrict hhost hpure _ rows)

theorem follows_execute (hhost : env.host.IsPure) (hpure : c.IsPure)
    (hpool : env.poolFailure = none) (q : Query) :
    Follows c (q.RunsTasks env c) (q.execute env c) (q.sequential.execute env c) := by
  rw [execute_eq, execute_eq]
  have h := (follows_bindSource hpure q.source).bind fun rows =>
    (follows_executeGroups hhost hpure hpool q.groups rows).bind_free fun rows =>
      (q.follows_selectRows hhost hpure rows).bind_free fun rows =>
        .of_isSteady (isSteady_projectAll hhost hpure q.projection rows)
  exact h.imp fun w hruns => ⟨trivial, hruns⟩

/-- A query ends as its sequential form does, with the same calls in some order. -/
theorem execute_sequential (q : Query) {w : World} (hhost : env.host.IsPure) (hpure : c.IsPure)
    (hpool : env.poolFailure = none) (hw : c.Agrees w) (hruns : q.RunsTasks env c w) :
    (outcome (q.execute env c) w).1 = (outcome (q.sequential.execute env c) w).1 ∧
      (outcome (q.execute env c) w).2.invocations.Perm
        (outcome (q.sequential.execute env c) w).2.invocations := by
  obtain ⟨r, calls, hsteady, hfollows⟩ := follows_execute hhost hpure hpool q
  obtain ⟨w₁, hout₁, -, hcalls₁⟩ := hsteady w hw
  obtain ⟨made, hmade, w₂, hout₂, -, hcalls₂⟩ := hfollows w hw hruns
  rw [hout₁, hout₂]
  refine ⟨rfl, ?_⟩
  rw [hcalls₁, hcalls₂]
  exact hmade.append_left _

/-- Tasks of two rows, started and ended in the opposite order, beside a sibling that makes none,
and a second group that rebinds an alias of the first. -/
theorem execute_sequential_backwards :
    let first : JoinGroup := ⟨[
      ⟨"a", .call (.variable "api") "echo" [.variable "x"], none, .async none none⟩,
      ⟨"b", .variable "x", none, .sync⟩,
      ⟨"c", .call (.variable "api") "echo" [.variable "x"], none, .async (some 9) (some 7)⟩]⟩
    let second : JoinGroup := ⟨[
      ⟨"a", .call (.variable "api") "echo" [.variable "c"], none, .async none none⟩]⟩
    let q : Query := {
      source := ⟨"items", "x"⟩, groups := [first, second], restriction := none
      projection := [("result", .variable "a")] }
    let env : Environment := {
      host := { capability := fun _ =>
        ⟨fun _ _ => true, fun _ _ values => .returned (values.headD .null)⟩ }
      scheduler := fun _ table => table.map (fun _ => .dispatch) ++
        table.reverse.flatMap fun (cell, _) => [.start cell, .finish cell] }
    let c : Context := { innermost := { values := ⟨[
      ("items", .array [.string "pear", .string "fig"]), ("api", .capability ⟨0, "api"⟩)]⟩ } }
    q.RunsTasks env c {} ∧
      (outcome (q.execute env c) {}).1 = (outcome (q.sequential.execute env c) {}).1 ∧
      (outcome (q.execute env c) {}).2.invocations.Perm
        (outcome (q.sequential.execute env c) {}).2.invocations := by
  intro first second q env c
  have hruns : q.RunsTasks env c {} := by
    let bound : List Row := [⟨0, [("x", .string "pear")]⟩, ⟨1, [("x", .string "fig")]⟩]
    have hsource : outcome (bindSource q.source c) {} = (.ok bound, {}) := rfl
    have hfirst : (outcome (first.execute env c bound) {}).1 = .ok [
        ⟨0, [("x", .string "pear"), ("a", .string "pear"), ("b", .string "pear"),
          ("c", .string "pear")]⟩,
        ⟨1, [("x", .string "fig"), ("a", .string "fig"), ("b", .string "fig"),
          ("c", .string "fig")]⟩] := rfl
    have hsubmissions : (outcome (first.execute env c bound) {}).2.submissions =
        [none, some 7, none, some 7] := rfl
    intro rows w hrows
    cases hsource.symm.trans hrows
    refine ⟨?_, ?_⟩
    · intro kept w hguards
      cases (rfl : outcome _ _ = (_, _)).symm.trans hguards
      decide +kernel
    · intro rows w hrows
      cases hfirst.symm.trans (congrArg Prod.fst hrows)
      have hw : w.submissions = [none, some 7, none, some 7] := by
        rw [← hsubmissions, hrows]
      refine ⟨?_, fun _ _ _ => trivial⟩
      intro kept w' hguards
      cases (rfl : outcome _ _ = (_, _)).symm.trans hguards
      rw [hw]
      decide +kernel
  have hhost : env.host.IsPure := ⟨fun _ _ => rfl, fun _ _ _ _ => rfl⟩
  have hpure : c.IsPure := fun _ h => by cases h
  exact ⟨hruns, execute_sequential q hhost hpure rfl (Context.agrees_of_loaded_nil rfl) hruns⟩

end Query
end RowQuery
