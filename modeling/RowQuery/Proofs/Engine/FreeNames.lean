import RowQuery.Proofs.Engine.Lockstep
import RowQuery.Proofs.Evaluation.Lookups
import RowQuery.Service.Basic

/-!
# A query depends on its free names

Two contexts that answer alike for the free names of a query are the same to it
(`Query.execute_freeNames`). Either goes in lockstep with the context that has these answers for
values, and there a query ends as its sequential form does, wherever it is started and whatever its
executors do. Beside it stands what needs no purity at all: the loads of a query are of free names,
and a binding of any other name changes nothing.
-/

set_option autoImplicit false

namespace RowQuery

open Run

/-! ## Tasks under a coupling -/

namespace Coupling

variable {env : Environment} {c c' : Context} {others : List String} {R : World → World → Prop}
  {w w' : World}

theorem groupRunsTasks (k : Coupling c c' others R) (g : JoinGroup) {scope : List String}
    {rows : List Row} (hrows : Bound scope rows)
    (hguards : (Stage.guards g).names.filter (· ∉ scope) ⊆ others) (hw : R w w')
    (hruns : g.RunsTasks env c rows w) : g.RunsTasks env c' rows w' := by
  intro kept w₁' hout'
  have hgate := (k.applyGuards env g.guards fun _ => hrows.covers hguards).evaluated
  obtain ⟨w₁, hout, hw₁⟩ := hgate.exists_outcome_left hw hout'
  rw [← k.submissions hw₁]
  exact hruns kept w₁ hout

theorem groupsRunTasks (k : Coupling c c' others R) (groups : List JoinGroup) :
    ∀ {scope : List String} {rows : List Row} {w w' : World}, Bound scope rows →
      freeNames scope (groupStages groups) ⊆ others → R w w' →
      Query.GroupsRunTasks env c groups rows w → Query.GroupsRunTasks env c' groups rows w' := by
  induction groups with
  | nil => exact fun _ _ _ _ => trivial
  | cons g rest ih =>
    intro scope rows w w' hrows hnames hw hruns
    rw [freeNames_groupStages_cons, List.append_subset, List.append_subset] at hnames
    obtain ⟨hguards, hexprs, hrest⟩ := hnames
    refine ⟨k.groupRunsTasks g hrows hguards hw hruns.1, fun rows' w₁' hout' => ?_⟩
    have hgroup : Lockstep R (g.execute env c rows) (g.execute env c' rows) :=
      k.executeGroup g hrows hguards hexprs
    obtain ⟨w₁, hout, hw₁⟩ := hgroup.exists_outcome_left hw hout'
    exact ih (g.yields_execute hrows w rows' w₁ hout) hrest hw₁ (hruns.2 rows' w₁ hout)

/-- Executors that run every task in the one context do so in the other. -/
theorem runsTasks (k : Coupling c c' others R) (q : Query) (h : q.freeNames ⊆ others)
    (hw : R w w') (hruns : q.RunsTasks env c w) : q.RunsTasks env c' w' := by
  intro rows w₁' hout'
  obtain ⟨hsource, hstages⟩ := List.cons_subset.mp h
  rw [q.stages_eq, freeNames_append, List.append_subset] at hstages
  obtain ⟨w₁, hout, hw₁⟩ := (k.bindSource q.source hsource).exists_outcome_left hw hout'
  have hrows := Query.yields_bindSource q.source w rows w₁ hout
  exact k.groupsRunTasks q.groups hrows hstages.1 hw₁ (hruns rows w₁ hout)

end Coupling

/-! ## The sequential form in an environment -/

section

variable {env env' : Environment} {c : Context}

theorem JoinGroup.scope_congr (h : env.host = env'.host) : scope env c = scope env' c := by
  funext row
  unfold scope
  rw [h]

theorem JoinGroup.evaluateRows_congr (h : env.host = env'.host) (g : JoinGroup) (rows : List Row) :
    evaluateRows env c g rows = evaluateRows env' c g rows := by
  induction rows with
  | nil => rfl
  | cons row rest ih => rw [evaluateRows, evaluateRows, scope_congr h, ih]

theorem Stage.run_congr (h : env.host = env'.host) (stage : Stage) :
    stage.run env c = stage.run env' c := by
  funext rows
  cases stage with
  | guards g => rw [run_guards, run_guards, JoinGroup.scope_congr h]
  | dispatch g =>
    unfold Stage.run
    dsimp only
    rw [JoinGroup.evaluateRows_congr h]
  | restriction r => rw [run_restriction, run_restriction, JoinGroup.scope_congr h]
  | projection p =>
    unfold Stage.run
    dsimp only
    rw [projectAll_eq_sift, projectAll_eq_sift, JoinGroup.scope_congr h]

/-- With no executors to wait for, all that a query needs of its environment is the host. -/
theorem Query.sequential_execute_congr (h : env.host = env'.host) (q : Query) :
    q.sequential.execute env c = q.sequential.execute env' c := by
  have hstages : ∀ (stages : List Stage) (rows : List Row),
      through env c stages rows = through env' c stages rows := by
    intro stages
    induction stages with
    | nil => exact fun _ => rfl
    | cons stage rest ih =>
      intro rows
      rw [through, through, stage.run_congr h]
      exact bind_congr ih
  rw [sequential_execute_eq, sequential_execute_eq]
  refine bind_congr fun rows => ?_
  unfold fromRows
  rw [hstages]
  refine bind_congr fun rows => ?_
  rw [projectAll_eq_sift, projectAll_eq_sift, JoinGroup.scope_congr h]

end

/-! ## Bound names -/

namespace Context

variable {c c' : Context} {name : String} {names : List String} {w : World}

/-- Looking up the bound name asks no loader. -/
theorem askAll_bind (c : Context) (name : String) (v : Value) (asked : List String) :
    ∀ w : World, (c.bind name v).askAll asked w = c.askAll (asked.filter (· ≠ name)) w := by
  induction asked with
  | nil => exact fun _ => rfl
  | cons other rest ih =>
    intro w
    by_cases h : other = name
    · subst h
      rw [List.filter_cons_of_neg (by simp), askAll, get?_bind_self, ih]
      rfl
    · rw [List.filter_cons_of_pos (by simpa using h), askAll, askAll, get?_bind_of_ne v h, ih]

/-- With a name bound, a context has the answers it had for the others. -/
theorem Answers.bind {answer : String → Option Value}
    (h : c.Answers w (names.filter (· ≠ name)) answer) (v : Value) :
    (c.bind name v).Answers w names fun other => if other = name then some v else answer other := by
  intro asked hasked other hother
  rw [askAll_bind]
  dsimp only
  by_cases heq : other = name
  · subst heq
    rw [get?_bind_self, if_pos rfl]
    rfl
  · rw [get?_bind_of_ne v heq, if_neg heq]
    refine h _ ?_ other (List.mem_filter.mpr ⟨hother, decide_eq_true heq⟩)
    intro asking hasking
    obtain ⟨hmem, hne⟩ := List.mem_filter.mp hasking
    exact List.mem_filter.mpr ⟨hasked hmem, hne⟩

end Context

/-! ## Free names are all that counts -/

namespace Query

variable {env env' : Environment} {c c' : Context} {w w' : World}
  {answer : String → Option Value}

/-- A query ends as its sequential form does in the context that has the answers for values. -/
theorem answer_execute_explicit (q : Query) (hhost : env.host.IsPure)
    (hpool : env.poolFailure = none) (h : c.Answers w q.freeNames answer)
    (hruns : q.RunsTasks env c w) :
    (outcome (q.execute env c) w).1 =
      (q.sequential.execute env (.explicit q.freeNames answer)).answer := by
  have k := Context.coupling_explicit h
  have hw : Context.SameDeeds w w ∧ c.Asked q.freeNames w w :=
    ⟨⟨rfl, rfl, rfl⟩, Context.Asked.refl c _ w⟩
  have hpure : (Context.explicit q.freeNames answer).IsPure := fun _ h => by cases h
  have hagrees : (Context.explicit q.freeNames answer).Agrees w := by
    intro id name found _ loader hloader
    cases hloader
  rw [(k.execute q (List.Subset.refl _) w w hw).1]
  have hruns' := k.runsTasks q (List.Subset.refl _) hw hruns
  obtain ⟨r, calls, hsteady, hfollows⟩ := follows_execute hhost hpure hpool q
  obtain ⟨made, -, w₁, hout, -⟩ := hfollows w hagrees hruns'
  rw [hout, hsteady.answer_eq]

/-- Contexts that answer alike for the free names: the results, or the error, are the same. -/
theorem outcome_execute_of_answers (q : Query) (hhost : env.host.IsPure)
    (hsame : env.host = env'.host) (hpool : env.poolFailure = none)
    (hpool' : env'.poolFailure = none) (h : c.Answers w q.freeNames answer)
    (h' : c'.Answers w' q.freeNames answer) (hruns : q.RunsTasks env c w)
    (hruns' : q.RunsTasks env' c' w') :
    (outcome (q.execute env c) w).1 = (outcome (q.execute env' c') w').1 := by
  rw [q.answer_execute_explicit hhost hpool h hruns,
    q.answer_execute_explicit (hsame ▸ hhost) hpool' h' hruns', sequential_execute_congr hsame]

/-- The loads of a query are of its free names. -/
theorem exists_loads_execute (q : Query) (env : Environment) (c : Context) (w : World) :
    ∃ made, (outcome (q.execute env c) w).2.loads = w.loads ++ made ∧
      ∀ load ∈ made, load.name ∈ q.freeNames := by
  have k := c.coupling_asked q.freeNames w
  exact (k.execute q (List.Subset.refl _) w w ⟨rfl, .refl c _ w⟩).2.2.exists_loads

/-- A binding of a name that is not free in the query is nothing to it. -/
theorem outcome_execute_bind_of_not_mem (q : Query) (env : Environment) (c : Context) (w : World)
    {name : String} (v : Value) (h : name ∉ q.freeNames) :
    outcome (q.execute env (c.bind name v)) w = outcome (q.execute env c) w := by
  have k : Coupling (c.bind name v) c q.freeNames Eq :=
    Context.coupling_eq fun other hother =>
      Context.get?_bind_of_ne v fun heq => h (heq ▸ hother)
  obtain ⟨hanswer, hworld⟩ := k.execute q (List.Subset.refl _) w w rfl
  exact Prod.ext hanswer hworld

end Query

/-- Contexts that answer alike for the free names other than the payload's: a service gives back the
same. -/
theorem Service.outcome_process_of_answers (s : Service) {env env' : Environment} {c c' : Context}
    {w w' : World} {answer : String → Option Value} (payload : Payload) (hhost : env.host.IsPure)
    (hsame : env.host = env'.host) (hpool : env.poolFailure = none)
    (hpool' : env'.poolFailure = none)
    (h : c.Answers w (s.query.freeNames.filter (· ≠ payloadName)) answer)
    (h' : c'.Answers w' (s.query.freeNames.filter (· ≠ payloadName)) answer)
    (hruns : ∀ input, payload.decode s.kind = .ok input →
      s.query.RunsTasks env (c.bind payloadName input) w ∧
        s.query.RunsTasks env' (c'.bind payloadName input) w') :
    (outcome (s.process env c payload) w).1 = (outcome (s.process env' c' payload) w').1 := by
  unfold process
  cases hinput : payload.decode s.kind with
  | error f => rfl
  | ok input =>
    obtain ⟨hruns, hruns'⟩ := hruns input hinput
    have hquery := s.query.outcome_execute_of_answers hhost hsame hpool hpool' (h.bind input)
      (h'.bind input) hruns hruns'
    rcases hout : outcome (s.query.execute env (c.bind payloadName input)) w with ⟨e | objects, w₁⟩
    all_goals
      rcases hout' : outcome (s.query.execute env' (c'.bind payloadName input)) w' with ⟨r, w₁'⟩
      rw [hout, hout'] at hquery
      dsimp only at hquery
      subst hquery
    · rw [outcome_bind_error hout, outcome_bind_error hout']
    · rw [outcome_bind_ok hout, outcome_bind_ok hout']
      rfl

/-- A query depends on its context by its free names alone. Contexts that answer alike for these
give the same results or the same error; loaders are asked for no other name; a binding of another
name changes nothing; and to a service it is all one what the name of the payload means. -/
theorem Query.execute_freeNames (q : Query) :
    (∀ {env env' : Environment} {c c' : Context} {w w' : World} {answer : String → Option Value},
      env.host.IsPure → env.host = env'.host → env.poolFailure = none → env'.poolFailure = none →
      c.Answers w q.freeNames answer → c'.Answers w' q.freeNames answer →
      q.RunsTasks env c w → q.RunsTasks env' c' w' →
      (outcome (q.execute env c) w).1 = (outcome (q.execute env' c') w').1) ∧
    (∀ (env : Environment) (c : Context) (w : World), ∃ made,
      (outcome (q.execute env c) w).2.loads = w.loads ++ made ∧
        ∀ load ∈ made, load.name ∈ q.freeNames) ∧
    (∀ (env : Environment) (c : Context) (w : World) {name : String} (v : Value),
      name ∉ q.freeNames →
      outcome (q.execute env (c.bind name v)) w = outcome (q.execute env c) w) ∧
    (∀ {s : Service} {env env' : Environment} {c c' : Context} {w w' : World}
        {answer : String → Option Value} (payload : Payload), s.query = q →
      env.host.IsPure → env.host = env'.host → env.poolFailure = none → env'.poolFailure = none →
      c.Answers w (q.freeNames.filter (· ≠ Service.payloadName)) answer →
      c'.Answers w' (q.freeNames.filter (· ≠ Service.payloadName)) answer →
      (∀ input, payload.decode s.kind = .ok input →
        q.RunsTasks env (c.bind Service.payloadName input) w ∧
          q.RunsTasks env' (c'.bind Service.payloadName input) w') →
      (outcome (s.process env c payload) w).1 = (outcome (s.process env' c' payload) w').1) := by
  refine ⟨q.outcome_execute_of_answers, q.exists_loads_execute,
    q.outcome_execute_bind_of_not_mem, ?_⟩
  intro s env env' c c' w w' answer payload hq
  subst hq
  exact s.outcome_process_of_answers payload

/-- A name that is looked up beside the alias of that name, in one context by a loader and in
another among its values; the two differ in the name of the payload and in an alias of the query. -/
theorem Query.execute_freeNames_shadowed :
    let q : Query := {
      source := ⟨"payload", "x"⟩
      groups := [⟨[
        ⟨"limit", .call (.variable "api") "echo" [.variable "x"], some (.variable "x"),
          .async (some 1) none⟩,
        ⟨"other", .variable "limit", none, .sync⟩]⟩]
      restriction := some (.compare .notEqual (.variable "limit") (.variable "other"))
      projection := [("name", .variable "limit"), ("bound", .variable "other")] }
    let s : Service := ⟨"echo", q, .native⟩
    let loader : Loader := ⟨0, fun _ name =>
      if name = "api" then .found (.capability ⟨0, "api"⟩)
      else if name = "limit" then .found (.string "fig")
      else if name = "other" then .found .null
      else .unknown⟩
    let c : Context := { innermost := { values := ⟨[("payload", .null)]⟩, loader := some loader } }
    let c' : Context := { innermost := { values := ⟨[
      ("limit", .string "fig"), ("api", .capability ⟨0, "api"⟩), ("other", .bool true)]⟩ } }
    let env : Environment := {
      host := { capability := fun _ =>
        ⟨fun _ _ => true, fun _ _ values => .returned (values.headD .null)⟩ } }
    let env' : Environment := { env with
      scheduler := fun _ table => table.flatMap fun (cell, _) =>
        [.dispatch, .dispatch, .start cell, .finish cell, .dispatch] }
    let input : Value := .array [.string "pear", .null, .string "fig"]
    q.freeNames = ["payload", "api", "limit"] ∧
      (outcome (q.execute env (c.bind "payload" input)) {}).1 =
        (outcome (q.execute env' (c'.bind "payload" input)) {}).1 ∧
      (outcome (s.process env c (.native input)) {}).1 =
        (outcome (s.process env' c' (.native input)) {}).1 := by
  intro q s loader c c' env env' input
  have hhost : env.host.IsPure := ⟨fun _ _ => rfl, fun _ _ _ _ => rfl⟩
  have hnames : q.freeNames = ["payload", "api", "limit"] := by decide
  have hloader : loader.IsPure := by
    refine ⟨fun _ _ => rfl, fun name => ?_⟩
    show (if name = "api" then _ else _) ≠ LoadReply.panicked
    split_ifs <;> exact LoadReply.noConfusion
  have hpure : c.IsPure := fun other hother => by
    cases List.mem_singleton.mp hother
    exact hloader
  have hpure' : c'.IsPure := fun _ h => by cases h
  let answer (name : String) : Option Value :=
    if name = "api" then some (.capability ⟨0, "api"⟩) else some (.string "fig")
  have hfree : q.freeNames.filter (· ≠ Service.payloadName) = ["api", "limit"] := by decide
  have hanswers : c.Answers {} (q.freeNames.filter (· ≠ Service.payloadName)) answer := by
    refine Context.answers_of_pure hpure (Context.agrees_of_loaded_nil rfl) ?_
    rw [hfree]
    simp only [List.forall_mem_cons]
    exact ⟨rfl, rfl, nofun⟩
  have hanswers' : c'.Answers {} (q.freeNames.filter (· ≠ Service.payloadName)) answer := by
    refine Context.answers_of_pure hpure' (Context.agrees_of_loaded_nil rfl) ?_
    rw [hfree]
    simp only [List.forall_mem_cons]
    exact ⟨rfl, rfl, nofun⟩
  have hruns : q.RunsTasks env (c.bind "payload" input) {} := by
    intro rows w hrows
    cases (rfl : outcome _ _ = (_, _)).symm.trans hrows
    refine ⟨fun kept w hguards => ?_, fun _ _ _ => trivial⟩
    cases (rfl : outcome _ _ = (_, _)).symm.trans hguards
    decide +kernel
  have hruns' : q.RunsTasks env' (c'.bind "payload" input) {} := by
    intro rows w hrows
    cases (rfl : outcome _ _ = (_, _)).symm.trans hrows
    refine ⟨fun kept w hguards => ?_, fun _ _ _ => trivial⟩
    cases (rfl : outcome _ _ = (_, _)).symm.trans hguards
    decide +kernel
  obtain ⟨hexecute, -, -, hprocess⟩ := execute_freeNames q
  refine ⟨hnames, ?_, ?_⟩
  · exact hexecute hhost rfl rfl rfl (hanswers.bind input) (hanswers'.bind input) hruns hruns'
  · refine hprocess (s := s) (.native input) rfl hhost rfl rfl rfl hanswers hanswers' ?_
    intro decoded hdecoded
    cases hdecoded
    exact ⟨hruns, hruns'⟩

end RowQuery
