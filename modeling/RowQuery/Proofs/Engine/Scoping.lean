import RowQuery.Proofs.Engine.Capabilities
import RowQuery.Proofs.Engine.FreeNames
import RowQuery.Proofs.Engine.Merging

/-!
# Well-scoped queries never hit an undefined name

A name in a query is an alias in scope, which every row has bound by then, or a name that the context
has to define. If it defines these, no lookup finds nothing (`Query.execute_wellScoped`).

The aliases in scope are the business of `Coupling.execute`: in lockstep with the context goes the one
in which a value stands behind everything for each variable of the query (`Context.backed`). There no
lookup of a variable comes to nothing, be it an alias or not, and so no contract of an expression need
allow it (`Contract.Admits`).
-/

set_option autoImplicit false

namespace RowQuery

open Run

/-! ## Scopes -/

/-- With these aliases in scope before the first group, the guards and expressions of every group
mention only aliases of earlier groups and names that are defined. Siblings do not see each other. -/
def GroupsScoped (defined : List String) : List String → List JoinGroup → Prop
  | _, [] => True
  | scope, g :: rest =>
    (∀ name ∈ g.names, name ∈ scope ∨ name ∈ defined) ∧
      GroupsScoped defined (scope ++ g.aliases) rest

/-- The aliases in scope behind all groups. -/
def Query.aliases (q : Query) : List String :=
  q.source.aliasName :: q.groups.flatMap JoinGroup.aliases

/-- Every name the query mentions is an alias in scope there or is defined. -/
structure Query.WellScoped (q : Query) (defined : List String) : Prop where
  source : q.source.name ∈ defined
  groups : GroupsScoped defined [q.source.aliasName] q.groups
  restriction : ∀ r ∈ q.restriction, ∀ name ∈ r.names, name ∈ q.aliases ∨ name ∈ defined
  projection : ∀ field ∈ q.projection, ∀ name ∈ field.2.names, name ∈ q.aliases ∨ name ∈ defined

theorem filter_not_mem_subset {names scope defined : List String}
    (h : ∀ name ∈ names, name ∈ scope ∨ name ∈ defined) :
    names.filter (· ∉ scope) ⊆ defined := by
  intro name hname
  obtain ⟨hmem, hout⟩ := List.mem_filter.mp hname
  exact (h name hmem).resolve_left (of_decide_eq_true hout)

theorem GroupsScoped.freeNames_subset {defined : List String} : ∀ {scope : List String}
    {groups : List JoinGroup}, GroupsScoped defined scope groups →
      freeNames scope (groupStages groups) ⊆ defined
  | _, [], _ => List.nil_subset _
  | scope, g :: rest, ⟨hg, hrest⟩ => by
    rw [freeNames_groupStages_cons]
    obtain ⟨hguards, hexprs⟩ := List.forall_mem_append.mp hg
    exact List.append_subset.mpr ⟨filter_not_mem_subset hguards,
      List.append_subset.mpr ⟨filter_not_mem_subset hexprs, hrest.freeNames_subset⟩⟩

theorem aliases_groupStages (groups : List JoinGroup) :
    (groupStages groups).flatMap Stage.aliases = groups.flatMap JoinGroup.aliases := by
  induction groups with
  | nil => rfl
  | cons g rest ih =>
    rw [aliases_groupStages_cons, ih]
    rfl

/-- What a well-scoped query looks up in its context is defined. -/
theorem Query.WellScoped.freeNames_subset {q : Query} {defined : List String}
    (h : q.WellScoped defined) : q.freeNames ⊆ defined := by
  refine List.cons_subset.mpr ⟨h.source, ?_⟩
  rw [q.stages_eq, freeNames_append, freeNames_append, aliases_groupStages]
  refine List.append_subset.mpr ⟨h.groups.freeNames_subset, List.append_subset.mpr ⟨?_, ?_⟩⟩
  · cases hr : q.restriction with
    | none => exact List.nil_subset _
    | some r =>
      have hnames := filter_not_mem_subset (h.restriction r hr)
      exact List.append_subset.mpr ⟨hnames, List.nil_subset _⟩
  · have haliases : (q.restriction.toList.map Stage.restriction).flatMap Stage.aliases = [] := by
      cases q.restriction <;> rfl
    rw [haliases, List.append_nil]
    have hnames : ∀ name ∈ (Stage.projection q.projection).names,
        name ∈ q.aliases ∨ name ∈ defined := by
      intro name hname
      obtain ⟨field, hfield, hmem⟩ := List.mem_flatMap.mp hname
      exact h.projection field hfield name hmem
    exact List.append_subset.mpr ⟨filter_not_mem_subset hnames, List.nil_subset _⟩

/-! ## Names that a context defines -/

namespace Context

variable {c : Context} {names : List String} {w w₀ : World} {name : String}

/-- However often and in whatever order these names are looked up, none is unknown. -/
def Defines (c : Context) (w : World) (names : List String) : Prop :=
  ∀ asked ⊆ names, ∀ name ∈ names, (outcome (c.get? name) (c.askAll asked w)).1 ≠ .ok none

/-- What has a value in some layer is not unknown, whatever loaders say. -/
theorem get?_ne_none {layer : Layer} (hlayer : layer ∈ c.layers) {v : Value}
    (hv : layer.values.get? name = some v) (w : World) :
    (outcome (c.get? name) w).1 ≠ .ok none := by
  obtain ⟨front, back, hlayers⟩ := List.append_of_mem hlayer
  have hhere : getFrom name (layer :: back) = pure (some v) := by rw [getFrom, hv]
  intro hnone
  rw [get?, hlayers, getFrom_append, hhere] at hnone
  rcases hout : outcome (getFrom name front) w with ⟨e | answer, w'⟩
  · rw [outcome_bind_error hout] at hnone
    cases hnone
  · rw [outcome_bind_ok hout] at hnone
    cases answer <;> cases hnone

/-- A pure context defines what it finds at once. -/
theorem defines_of_pure (hpure : c.IsPure) (hw : c.Agrees w)
    (h : ∀ name ∈ names, ∃ v, (outcome (c.get? name) w).1 = .ok (some v)) :
    c.Defines w names := by
  let answer (name : String) : Option Value := ((outcome (c.get? name) w).1.toOption).join
  have hanswers : c.Answers w names answer := by
    refine answers_of_pure hpure hw fun name hname => ?_
    obtain ⟨v, hv⟩ := h name hname
    simp only [answer, hv]
    rfl
  intro asked hasked name hname
  obtain ⟨v, hv⟩ := h name hname
  rw [hanswers asked hasked name hname]
  simp only [answer, hv]
  exact nofun

/-- The context with a layer behind all others. -/
def backed (c : Context) (layer : Layer) : Context := ⟨c.innermost, c.outer ++ [layer]⟩

variable {layer : Layer}

theorem get?_backed : (c.backed layer).get? name = c.get? name >>= fun
    | some v => pure (some v)
    | none => getFrom name [layer] :=
  getFrom_append c.layers [layer]

/-- What is found is found in front of the layer. -/
theorem outcome_get?_backed (h : (outcome (c.get? name) w).1 ≠ .ok none) :
    outcome ((c.backed layer).get? name) w = outcome (c.get? name) w := by
  rw [get?_backed, outcome_bind]
  rcases hout : outcome (c.get? name) w with ⟨e | answer, w'⟩
  · rfl
  · cases answer with
    | some v => rfl
    | none => exact absurd (congrArg Prod.fst hout) h

/-- A context goes in lockstep with itself and a layer behind it where names are looked up that it
defines. -/
theorem coupling_backed (h : c.Defines w₀ names) (layer : Layer) :
    Coupling c (c.backed layer) names fun w w' => w = w' ∧ c.Asked names w₀ w where
  invocations := (c.coupling_asked names w₀).invocations
  submissions := (c.coupling_asked names w₀).submissions
  poolStarted := (c.coupling_asked names w₀).poolStarted
  update := (c.coupling_asked names w₀).update
  lookup := by
    rintro name hname w _ ⟨rfl, hasked⟩
    obtain ⟨asked, hsub, hout, -⟩ := hasked.exists_outcome name
    rw [outcome_get?_backed (hout ▸ h asked hsub name hname)]
    exact ⟨rfl, rfl, hasked.step hname⟩

end Context

/-! ## Queries -/

/-- The variables among the parts. -/
def variablesOf (parts : List Expr) : List String :=
  parts.filterMap fun
    | .variable name => some name
    | _ => none

theorem mem_variablesOf {parts : List Expr} {name : String} (h : .variable name ∈ parts) :
    name ∈ variablesOf parts :=
  List.mem_filterMap.mpr ⟨.variable name, h, rfl⟩

/-- No name is reported that nothing is known of. -/
def Contract.defined : Contract where
  since := []
  call _ _ := True
  fault f := f.isUndefined = false
  breakdown := True

theorem Contract.defined_admits {s : Scope} {parts : List Expr}
    (h : ∀ name, .variable name ∈ parts → ∀ w, (outcome (s.context.get? name) w).1 ≠ .ok none) :
    defined.Admits s parts where
  call _ _ _ := trivial
  own _ _ hdefined := hdefined
  undefined w name hpart _ hnone := absurd hnone (h name hpart w)
  answer _ _ _ _ _ := rfl
  breakdown _ := trivial

/-- What an execution reports is allowed by the contract it keeps to. -/
theorem Contract.Executes.fault_of_mem {k : Contract} {α : Type} {A : α → Prop} {m : Execution α}
    {w : World} (h : k.Executes A m w) (hw : k.since <+: w.invocations) :
    ∀ f ∈ reported Halt.faults (outcome m w).1, k.fault f := by
  intro f hf
  cases hout : (outcome m w).1 with
  | ok a =>
    rw [hout] at hf
    cases hf
  | error halt =>
    rw [hout] at hf
    have hmeets := (h hw).error halt hout
    cases halt with
    | error e => exact hmeets f hf
    | loaderPanic => cases hf

namespace Query

variable {c : Context} {w : World}

/-- With a value behind everything for each of its variables, a query only has to find its source. -/
theorem executes_backed (q : Query) (env : Environment)
    (hsource : (outcome (c.get? q.source.name) w).1 ≠ .ok none) : ∃ layer : Layer,
      Contract.defined.Executes (fun _ => True) (q.execute env (c.backed layer)) w := by
  let layer : Layer := (Context.explicit (variablesOf q.parts) fun _ => some .null).innermost
  refine ⟨layer, ?_⟩
  have hlayer : ∀ name, .variable name ∈ q.parts → layer.values.get? name = some .null := by
    intro name hname
    exact (Context.lookup_filterMap (variablesOf q.parts) name).trans
      (if_pos (mem_variablesOf hname))
  have hbehind : layer ∈ (c.backed layer).layers := List.mem_append_right c.layers List.mem_cons_self
  have hadmits : ∀ row, Contract.defined.Admits (JoinGroup.scope env (c.backed layer) row) q.parts :=
    fun row => Contract.defined_admits fun name hname w =>
      Context.get?_ne_none hbehind (hlayer name hname) w
  rw [← Context.outcome_get?_backed hsource] at hsource
  exact Contract.executes_execute_of_source hadmits (List.Subset.refl _) (.inl fun _ => rfl)
    fun hnone => absurd hnone hsource

/-- A query whose names are all aliases in scope or defined by the context reports no name that is
not defined, neither by itself nor for any row: whatever the host, the loaders and the executors do. -/
theorem execute_wellScoped {q : Query} {names : List String} (hscoped : q.WellScoped names)
    (env : Environment) (hdefines : c.Defines w names) :
    ∀ f ∈ reported Halt.faults (outcome (q.execute env c) w).1, f.isUndefined = false := by
  have hsource := hdefines [] (List.nil_subset _) q.source.name hscoped.source
  obtain ⟨layer, hexecutes⟩ := q.executes_backed env hsource
  have k := Context.coupling_backed hdefines layer
  have hlockstep : Lockstep _ (q.execute env c) (q.execute env (c.backed layer)) :=
    k.execute q hscoped.freeNames_subset
  rw [(hlockstep w w ⟨rfl, .refl c _ w⟩).1]
  exact hexecutes.fault_of_mem List.nil_prefix

/-- An alias that shadows a name of the loader from the second group on; the first group still reads
the loader's, in a task, and fails for another reason. -/
theorem execute_wellScoped_shadowed :
    let q : Query := {
      source := ⟨"items", "x"⟩
      groups := [
        ⟨[⟨"a", .path (.variable "limit") [⟨"max", false⟩], some (.variable "x"),
          .async (some 1) none⟩, ⟨"b", .variable "x", none, .sync⟩]⟩,
        ⟨[⟨"limit", .variable "a", some (.variable "b"), .sync⟩]⟩]
      restriction := some (.compare .equal (.variable "limit") (.variable "b"))
      projection := [("name", .variable "limit"), ("source", .variable "items")] }
    let loader : Loader := ⟨0, fun _ name =>
      if name = "limit" then .found (.string "fig") else .unknown⟩
    let c : Context := { innermost := {
      values := ⟨[("items", .array [.null, .string "pear"])]⟩, loader := some loader } }
    let env : Environment := { host := { capability := fun _ =>
      ⟨fun _ _ => false, fun _ _ _ => .failed ""⟩ } }
    q.WellScoped ["items", "limit"] ∧ c.Defines {} ["items", "limit"] ∧
      (outcome (q.execute env c) {}).1 = .error (.error (.ofFailures [⟨1, "a",
        .unresolved (.noProperty "string" "limit" "max")⟩])) ∧
      ∀ f ∈ reported Halt.faults (outcome (q.execute env c) {}).1, f.isUndefined = false := by
  intro q loader c env
  have hscoped : q.WellScoped ["items", "limit"] := by
    refine ⟨by decide, ⟨by decide, by decide, trivial⟩, fun r hr => ?_, by decide⟩
    obtain rfl := Option.some.inj hr
    decide
  have hpure : c.IsPure := by
    intro other hother
    cases List.mem_singleton.mp hother
    refine ⟨fun _ _ => rfl, fun name => ?_⟩
    show (if name = "limit" then _ else _) ≠ LoadReply.panicked
    split_ifs <;> exact LoadReply.noConfusion
  have hdefines : c.Defines {} ["items", "limit"] := by
    refine Context.defines_of_pure hpure (Context.agrees_of_loaded_nil rfl) ?_
    simp only [List.forall_mem_cons]
    exact ⟨⟨_, rfl⟩, ⟨_, rfl⟩, nofun⟩
  exact ⟨hscoped, hdefines, rfl, execute_wellScoped hscoped env hdefines⟩

end Query
end RowQuery
