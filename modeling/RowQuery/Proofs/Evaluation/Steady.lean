import RowQuery.Proofs.Evaluation.Walk

/-!
# Evaluations that do not depend on what was done before

A pure host and pure loaders answer alike whenever they are asked. An evaluation then has one
outcome and makes one list of calls, from whatever world it starts (`Steady`), as long as what the
world remembers of loaders is what they would answer (`Context.Agrees`). `IsSteady` holds of lookups
and calls and is closed under sequencing, and so it holds of expressions.

The memory of loaders is keyed by the number of the loader. A context may hold two loaders of one
number; the inner one is asked first for every name, so it is always its answer that is remembered.
-/

set_option autoImplicit false

namespace RowQuery

/-! ## Outcomes -/

namespace Run

variable {ε α β : Type}

/-- The outcome of a run from a world and the world it leaves. -/
def outcome (m : Run ε α) (w : World) : Except ε α × World := (ExceptT.run m).run w

theorem outcome_get (w : World) : outcome (get : Run ε World) w = (.ok w, w) := rfl

theorem outcome_modify (f : World → World) (w : World) :
    outcome (modify f : Run ε Unit) w = (.ok (), f w) := rfl

theorem outcome_bind (m : Run ε α) (f : α → Run ε β) (w : World) :
    outcome (m >>= f) w = match outcome m w with
      | (.ok a, w') => outcome (f a) w'
      | (.error e, w') => (.error e, w') := by
  show (match (ExceptT.run m).run w with
    | (r, w') => (ExceptT.bindCont f r).run w') = _
  unfold outcome
  cases (ExceptT.run m).run w with
  | mk r w' => cases r <;> rfl

theorem outcome_bind_ok {m : Run ε α} {f : α → Run ε β} {w w' : World} {a : α}
    (h : outcome m w = (.ok a, w')) : outcome (m >>= f) w = outcome (f a) w' := by
  rw [outcome_bind, h]

theorem outcome_bind_error {m : Run ε α} {f : α → Run ε β} {w w' : World} {e : ε}
    (h : outcome m w = (.error e, w')) : outcome (m >>= f) w = (.error e, w') := by
  rw [outcome_bind, h]

theorem outcome_bind_run {δ : Type} (e : Run δ α) (f : Except δ α → Run ε β) (w : World) :
    outcome ((liftM (ExceptT.run e : StateM World _) : Run ε (Except δ α)) >>= f) w =
      outcome (f (outcome e w).1) (outcome e w).2 := rfl

theorem outcome_evaluated (e : Evaluation α) (w : World) :
    outcome (evaluated e) w = ((outcome e w).1.mapError Stop.toHalt, (outcome e w).2) := rfl

end Run

open Run

/-! ## Pure loaders -/

/-- The answer depends on the name alone, and there is one. -/
structure Loader.IsPure (loader : Loader) : Prop where
  steady : ∀ earlier name, loader.resolve earlier name = loader.resolve [] name
  answers : ∀ name, loader.resolve [] name ≠ .panicked

/-- What a pure loader says of a name. -/
def Loader.answer (loader : Loader) (name : String) : Option Value :=
  match loader.resolve [] name with
  | .found v => some v
  | .unknown => none
  | .panicked => none

namespace Context

/-- The loaders, innermost first. -/
def loaders (c : Context) : List Loader := c.layers.filterMap Layer.loader

def IsPure (c : Context) : Prop := ∀ loader ∈ c.loaders, loader.IsPure

/-- What is remembered under a number is what the innermost loader of that number answers. -/
def Agrees (c : Context) (w : World) : Prop :=
  ∀ id name answer, w.loaded.lookup ⟨id, name⟩ = some answer →
    ∀ loader, c.loaders.find? (·.id == id) = some loader → answer = loader.answer name

/-- A world that remembers nothing agrees with every context. -/
theorem agrees_of_loaded_nil {c : Context} {w : World} (h : w.loaded = []) : c.Agrees w := by
  intro id name answer hmem
  rw [h] at hmem
  cases hmem

theorem Agrees.of_loaded_eq {c : Context} {w w' : World} (hw : c.Agrees w)
    (h : w'.loaded = w.loaded) : c.Agrees w' := by
  intro id name answer hmem
  rw [h] at hmem
  exact hw id name answer hmem

end Context

/-! ## Steady runs -/

/-- From this world the run ends in `r` and makes these calls. -/
def Ends {ε α : Type} (c : Context) (m : Run ε α) (w : World) (r : Except ε α)
    (calls : List Invocation) : Prop :=
  ∃ w', outcome m w = (r, w') ∧ c.Agrees w' ∧ w'.invocations = w.invocations ++ calls

/-- So it does from every world that agrees. -/
def Steady {ε α : Type} (c : Context) (m : Run ε α) (r : Except ε α)
    (calls : List Invocation) : Prop :=
  ∀ w, c.Agrees w → Ends c m w r calls

namespace Steady

variable {ε α β : Type} {c : Context} {m : Run ε α} {f : α → Run ε β}
  {calls more : List Invocation}

theorem pure (a : α) : Steady c (pure a : Run ε α) (.ok a) [] :=
  fun w hw => ⟨w, rfl, hw, (List.append_nil _).symm⟩

theorem throw (e : ε) : Steady c (throw e : Run ε α) (.error e) [] :=
  fun w hw => ⟨w, rfl, hw, (List.append_nil _).symm⟩

theorem bind_ok {a : α} {r : Except ε β} (hm : Steady c m (.ok a) calls)
    (hf : Steady c (f a) r more) : Steady c (m >>= f) r (calls ++ more) := by
  intro w hw
  obtain ⟨w₁, hout₁, hagree₁, hcalls₁⟩ := hm w hw
  obtain ⟨w₂, hout₂, hagree₂, hcalls₂⟩ := hf w₁ hagree₁
  refine ⟨w₂, ?_, hagree₂, ?_⟩
  · rw [outcome_bind_ok hout₁, hout₂]
  · rw [hcalls₂, hcalls₁, List.append_assoc]

theorem bind_error {e : ε} (hm : Steady c m (.error e) calls) :
    Steady c (m >>= f) (.error e) calls := by
  intro w hw
  obtain ⟨w', hout, hagree, hcalls⟩ := hm w hw
  exact ⟨w', outcome_bind_error hout, hagree, hcalls⟩

/-- A change of the world that no evaluation can see. -/
theorem modify {change : World → World} (hloaded : ∀ w, (change w).loaded = w.loaded)
    (hcalls : ∀ w, (change w).invocations = w.invocations) :
    Steady c (modify change : Run ε Unit) (.ok ()) [] := by
  intro w hw
  exact ⟨change w, outcome_modify change w, hw.of_loaded_eq (hloaded w),
    by rw [hcalls, List.append_nil]⟩

theorem evaluated {e : Evaluation α} {r : Except Stop α} (h : Steady c e r calls) :
    Steady c (Run.evaluated e) (r.mapError Stop.toHalt) calls := by
  intro w hw
  obtain ⟨w', hout, hagree, hcalls⟩ := h w hw
  refine ⟨w', ?_, hagree, hcalls⟩
  rw [outcome_evaluated, hout]

theorem settled {e : Evaluation α} {r : Except Fault α}
    (h : Steady c e (r.mapError .fault) calls) : Steady c (Run.settled e) (.ok r) calls := by
  intro w hw
  obtain ⟨w', hout, hagree, hcalls⟩ := h w hw
  refine ⟨w', ?_, hagree, hcalls⟩
  unfold Run.settled
  rw [outcome_bind_run, hout]
  cases r <;> rfl

end Steady

/-- The evaluation has one outcome, which is not a loader that broke down, and makes one list of
calls. -/
def IsSteady {α : Type} (c : Context) (m : Evaluation α) : Prop :=
  ∃ (r : Except Fault α) (calls : List Invocation), Steady c m (r.mapError .fault) calls

namespace IsSteady

variable {α β : Type} {c : Context}

theorem pure (a : α) : IsSteady c (pure a) := ⟨.ok a, [], .pure a⟩

theorem fail (f : Fault) : IsSteady c (Run.fail f : Evaluation α) := ⟨.error f, [], .throw _⟩

theorem bind {m : Evaluation α} {f : α → Evaluation β} (hm : IsSteady c m)
    (hf : ∀ a, IsSteady c (f a)) : IsSteady c (m >>= f) := by
  obtain ⟨r, calls, hm⟩ := hm
  cases r with
  | error e => exact ⟨.error e, calls, hm.bind_error⟩
  | ok a =>
    obtain ⟨r, more, hf⟩ := hf a
    exact ⟨r, calls ++ more, hm.bind_ok hf⟩

end IsSteady

/-! ## Names -/

namespace Context

variable {c : Context} {loader : Loader} {name : String}

theorem outcome_load_known {w : World} {answer : Option Value}
    (h : w.loaded.lookup ⟨loader.id, name⟩ = some answer) :
    outcome (load loader name) w = (.ok answer, w) := by
  unfold load
  rw [outcome_bind_ok (outcome_get w)]
  dsimp only
  rw [h]
  rfl

/-- The innermost loader of its number says what it always says, and it is remembered. -/
theorem outcome_load (hpure : loader.IsPure)
    (hfirst : c.loaders.find? (·.id == loader.id) = some loader) {w : World} (hw : c.Agrees w) :
    ∃ w', outcome (load loader name) w = (.ok (loader.answer name), w') ∧ c.Agrees w' ∧
      w'.invocations = w.invocations ∧
      w'.loaded.lookup ⟨loader.id, name⟩ = some (loader.answer name) ∧
      ∀ request, request ≠ ⟨loader.id, name⟩ →
        w'.loaded.lookup request = w.loaded.lookup request := by
  cases hmem : w.loaded.lookup ⟨loader.id, name⟩ with
  | some answer =>
    have hanswer := hw _ _ _ hmem loader hfirst
    rw [hanswer] at hmem
    exact ⟨w, outcome_load_known hmem, hw, rfl, hmem, fun _ _ => rfl⟩
  | none =>
    refine ⟨{ w with
      loads := w.loads ++ [⟨loader.id, name⟩]
      loaded := (⟨loader.id, name⟩, loader.answer name) :: w.loaded }, ?_, ?_, rfl,
      List.lookup_cons_self, ?_⟩
    · unfold load
      rw [outcome_bind_ok (outcome_get w)]
      dsimp only
      rw [hmem, hpure.steady]
      unfold Loader.answer
      cases hreply : loader.resolve [] name with
      | found v => rfl
      | unknown => rfl
      | panicked => exact absurd hreply (hpure.answers name)
    · intro id name' answer hmem' other hother
      rw [List.lookup_cons] at hmem'
      -- what is new is what the innermost loader of its number answered
      by_cases hsame : (⟨id, name'⟩ : Load) = ⟨loader.id, name⟩
      · obtain ⟨rfl, rfl⟩ := Load.mk.inj hsame
        rw [beq_self_eq_true] at hmem'
        rw [hfirst] at hother
        rw [← Option.some.inj hother]
        exact (Option.some.inj hmem').symm
      · rw [beq_false_of_ne hsame] at hmem'
        exact hw _ _ _ hmem' other hother
    · intro request hne
      rw [List.lookup_cons, beq_false_of_ne hne]

/-- It is remembered of the loaders of these layers that they do not know the name. -/
def Passed (w : World) (name : String) (layers : List Layer) : Prop :=
  ∀ loader ∈ layers.filterMap Layer.loader, w.loaded.lookup ⟨loader.id, name⟩ = some none

variable {before outer : List Layer} {layer : Layer} {w : World}

theorem Passed.append_none (h : Passed w name before) (hloader : layer.loader = none) :
    Passed w name (before ++ [layer]) := by
  intro other hother
  rw [List.filterMap_append, List.filterMap_cons_none hloader, List.filterMap_nil,
    List.append_nil] at hother
  exact h other hother

theorem Passed.append_some (h : Passed w name before) (hloader : layer.loader = some loader)
    (hmem : w.loaded.lookup ⟨loader.id, name⟩ = some none) : Passed w name (before ++ [layer]) := by
  intro other hother
  rw [List.filterMap_append, List.filterMap_cons_some hloader, List.filterMap_nil] at hother
  rcases List.mem_append.mp hother with hother | hother
  · exact h other hother
  · rw [List.mem_singleton.mp hother]
    exact hmem

theorem loaders_eq (hlayers : c.layers = before ++ layer :: outer)
    (hloader : layer.loader = some loader) :
    c.loaders = before.filterMap Layer.loader ++ loader :: outer.filterMap Layer.loader := by
  unfold loaders
  rw [hlayers, List.filterMap_append, List.filterMap_cons_some hloader]

theorem find?_loaders (hlayers : c.layers = before ++ layer :: outer)
    (hloader : layer.loader = some loader)
    (hnew : ∀ other ∈ before.filterMap Layer.loader, other.id ≠ loader.id) :
    c.loaders.find? (·.id == loader.id) = some loader := by
  have hnone : (before.filterMap Layer.loader).find? (·.id == loader.id) = none := by
    rw [List.find?_eq_none]
    intro other hother hid
    exact hnew other hother (beq_iff_eq.mp hid)
  rw [loaders_eq hlayers hloader, List.find?_append, hnone, Option.none_or, List.find?_cons,
    beq_self_eq_true]

/-- A layer's loader after those before it have been passed. One whose number is not new is not
asked: what is remembered is what the loader of that number said. -/
theorem outcome_load_passed (hpure : c.IsPure) (hlayers : c.layers = before ++ layer :: outer)
    (hloader : layer.loader = some loader) (name : String) :
    ∃ answer : Option Value, ∀ w, c.Agrees w → Passed w name before →
      ∃ w', outcome (load loader name) w = (.ok answer, w') ∧ c.Agrees w' ∧
        w'.invocations = w.invocations ∧ (answer = none → Passed w' name (before ++ [layer])) := by
  by_cases hagain : ∃ other ∈ before.filterMap Layer.loader, other.id = loader.id
  · obtain ⟨other, hother, hid⟩ := hagain
    refine ⟨none, fun w hw hpassed => ?_⟩
    have hmem := hpassed other hother
    rw [hid] at hmem
    exact ⟨w, outcome_load_known hmem, hw, rfl, fun _ => hpassed.append_some hloader hmem⟩
  · have hnew : ∀ other ∈ before.filterMap Layer.loader, other.id ≠ loader.id :=
      fun other hother hid => hagain ⟨other, hother, hid⟩
    have hone : loader.IsPure := hpure loader (by
      rw [loaders_eq hlayers hloader]
      exact List.mem_append_right _ List.mem_cons_self)
    refine ⟨loader.answer name, fun w hw hpassed => ?_⟩
    obtain ⟨w', hload, hagree, hcalls, hmem, hkept⟩ :=
      outcome_load hone (find?_loaders hlayers hloader hnew) hw
    refine ⟨w', hload, hagree, hcalls, fun hanswer => ?_⟩
    rw [hanswer] at hmem
    have hpassed' : Passed w' name before := by
      intro other hother
      rw [hkept _ fun heq => hnew other hother (Load.mk.inj heq).1]
      exact hpassed other hother
    exact hpassed'.append_some hloader hmem

/-- The layers from some place on. The induction is on the layers; which loaders have been passed
decides whether the next one is the innermost of its number. -/
theorem outcome_getFrom (hpure : c.IsPure) (name : String) (layers : List Layer) :
    ∀ before : List Layer, c.layers = before ++ layers → ∃ answer : Option Value,
      ∀ w, c.Agrees w → Passed w name before →
        ∃ w', outcome (getFrom name layers) w = (.ok answer, w') ∧ c.Agrees w' ∧
          w'.invocations = w.invocations := by
  induction layers with
  | nil => exact fun _ _ => ⟨none, fun w hw _ => ⟨w, rfl, hw, rfl⟩⟩
  | cons layer outer ih =>
    intro before hlayers
    cases hvalue : layer.values.get? name with
    | some v =>
      refine ⟨some v, fun w hw _ => ⟨w, ?_, hw, rfl⟩⟩
      rw [getFrom, hvalue]
      rfl
    | none =>
      have hstep : c.layers = (before ++ [layer]) ++ outer := by
        rw [hlayers, List.append_assoc]
        rfl
      obtain ⟨answer, hrest⟩ := ih _ hstep
      cases hloader : layer.loader with
      | none =>
        refine ⟨answer, fun w hw hpassed => ?_⟩
        rw [getFrom, hvalue, hloader]
        exact hrest w hw (hpassed.append_none hloader)
      | some loader =>
        obtain ⟨reply, hload⟩ := outcome_load_passed hpure hlayers hloader name
        cases reply with
        | some v =>
          refine ⟨some v, fun w hw hpassed => ?_⟩
          obtain ⟨w', hout, hagree, hcalls, -⟩ := hload w hw hpassed
          refine ⟨w', ?_, hagree, hcalls⟩
          rw [getFrom, hvalue, hloader]
          exact outcome_bind_ok hout
        | none =>
          refine ⟨answer, fun w hw hpassed => ?_⟩
          obtain ⟨w₁, hout₁, hagree₁, hcalls₁, hpassed₁⟩ := hload w hw hpassed
          obtain ⟨w₂, hout₂, hagree₂, hcalls₂⟩ := hrest w₁ hagree₁ (hpassed₁ rfl)
          refine ⟨w₂, ?_, hagree₂, hcalls₂.trans hcalls₁⟩
          rw [getFrom, hvalue, hloader]
          exact (outcome_bind_ok hout₁).trans hout₂

theorem isSteady_get? (hpure : c.IsPure) (name : String) : IsSteady c (c.get? name) := by
  obtain ⟨answer, h⟩ := outcome_getFrom hpure name c.layers [] rfl
  refine ⟨.ok answer, [], fun w hw => ?_⟩
  obtain ⟨w', hout, hagree, hcalls⟩ := h w hw nofun
  exact ⟨w', hout, hagree, by rw [hcalls, List.append_nil]⟩

end Context

/-! ## Expressions -/

namespace Scope

variable {s : Scope}

/-- An operation is asked for with the calls made so far, and asking leaves nothing behind. -/
theorem outcome_offers (s : Scope) (target : Handle) (operation : String) (arity : Nat)
    (w : World) :
    outcome (s.offers target operation arity) w =
      (.ok (s.host.offers w.invocations target operation arity), w) := rfl

theorem isSteady_offers (hhost : s.host.IsPure) (target : Handle) (operation : String)
    (arity : Nat) : IsSteady s.context (s.offers target operation arity) := by
  refine ⟨.ok (s.host.offers [] target operation arity), [], fun w hw => ?_⟩
  refine ⟨w, ?_, hw, (List.append_nil _).symm⟩
  rw [outcome_offers, hhost.offers]
  rfl

/-- A call is recorded whatever becomes of it. -/
theorem outcome_invoke_at (s : Scope) (target : Handle) (operation : String)
    (arguments : List Value) (w : World) :
    outcome (s.invoke target operation arguments) w =
      (((s.host.capability target).invoke w.invocations operation arguments).result.mapError
          fun message => .fault (.invocation (.failed target.typeName operation message)),
        { w with invocations := w.invocations ++ [⟨target, operation, arguments⟩] }) := by
  unfold invoke
  rw [outcome_bind_ok (outcome_get w)]
  dsimp only
  cases ((s.host.capability target).invoke w.invocations operation arguments).result <;> rfl

theorem outcome_invoke (hhost : s.host.IsPure) (target : Handle) (operation : String)
    (arguments : List Value) (w : World) :
    outcome (s.invoke target operation arguments) w =
      (((s.host.capability target).invoke [] operation arguments).result.mapError fun message =>
          .fault (.invocation (.failed target.typeName operation message)),
        { w with invocations := w.invocations ++ [⟨target, operation, arguments⟩] }) := by
  rw [outcome_invoke_at, hhost.answers]

theorem isSteady_invoke (hhost : s.host.IsPure) (target : Handle) (operation : String)
    (arguments : List Value) : IsSteady s.context (s.invoke target operation arguments) := by
  refine ⟨((s.host.capability target).invoke [] operation arguments).result.mapError fun message =>
    .invocation (.failed target.typeName operation message), [⟨target, operation, arguments⟩],
    fun w hw => ?_⟩
  refine ⟨_, (outcome_invoke hhost target operation arguments w).trans (Prod.ext ?_ rfl), hw, rfl⟩
  cases ((s.host.capability target).invoke [] operation arguments).result <;> rfl

theorem isSteady_operator {c : Context} {α : Type} (outcome : Except Mismatch α) :
    IsSteady c (operator outcome) := by
  unfold operator
  split
  · exact .pure _
  · exact .fail _

/-- What an evaluation is made of is steady. -/
theorem evaluationClosed_isSteady {host : Host} {c : Context} (hhost : host.IsPure)
    (hpure : c.IsPure) : EvaluationClosed host c (IsSteady c) where
  pure := .pure
  fail := .fail
  bind := .bind
  get? := Context.isSteady_get? hpure
  offers row := isSteady_offers (s := ⟨host, c, row⟩) hhost
  invoke row := isSteady_invoke (s := ⟨host, c, row⟩) hhost

section

variable (hhost : s.host.IsPure) (hpure : s.context.IsPure)

include hhost hpure

/-- Every expression is steady. -/
theorem isSteady_evaluate (e : Expr) : IsSteady s.context (s.evaluate e) :=
  (evaluationClosed_isSteady hhost hpure).evaluate s.row e

theorem isSteady_satisfies (r : Restriction) : IsSteady s.context (s.satisfies r) :=
  (evaluationClosed_isSteady hhost hpure).satisfies s.row r

theorem isSteady_projectOnto (projection : Projection) (object : Object) :
    IsSteady s.context (s.projectOnto object projection) :=
  (evaluationClosed_isSteady hhost hpure).projectOnto s.row projection object

end

end Scope

/-- What expressions come to, and the calls they make, in a context whose answers never change. -/
structure Meaning (host : Host) (c : Context) where
  value : Row → Expr → Except Fault Value
  calls : Row → Expr → List Invocation
  steady : ∀ row e,
    Steady c (Scope.evaluate ⟨host, c, row⟩ e) ((value row e).mapError .fault) (calls row e)

theorem exists_meaning {host : Host} {c : Context} (hhost : host.IsPure) (hpure : c.IsPure) :
    Nonempty (Meaning host c) := by
  have h : ∀ row e, IsSteady c (Scope.evaluate ⟨host, c, row⟩ e) := fun row e =>
    Scope.isSteady_evaluate (s := ⟨host, c, row⟩) hhost hpure e
  exact ⟨{
    value := fun row e => (h row e).choose
    calls := fun row e => (h row e).choose_spec.choose
    steady := fun row e => (h row e).choose_spec.choose_spec }⟩

end RowQuery
