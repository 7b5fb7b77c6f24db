import RowQuery.Proofs.Engine.Contracts

/-!
# What capabilities can rely on

A capability is called only for operations that it said it has, and it was asked at the right moment:
when the target of the call had been evaluated and none of its arguments had. What is reported of a call
that failed is then the answer of an operation that is there; the failure a registry has for the
others never comes up (`Query.execute_checked`). Nothing is assumed of the host, the loaders or the
executors; which operations a capability has may change with every call.
-/

set_option autoImplicit false

namespace RowQuery

open Run

/-! ## The contract -/

/-- If the fault is a call that failed, it tells what an operation answered that was called so. -/
def Fault.AnsweredBy (host : Host) (call : World → Invocation → Prop) : Fault → Prop
  | .invocation (.failed typeName operation message) =>
    ∃ w i, call w i ∧ i.target.typeName = typeName ∧ i.operation = operation ∧
      ((host.capability i.target).invoke w.invocations operation i.arguments).result =
        .error message
  | _ => True

/-- Calls are made so, and what is reported of those that failed is their answer. -/
def Contract.answering (host : Host) (since : List Invocation) (call : World → Invocation → Prop) :
    Contract where
  since := since
  call := call
  fault := Fault.AnsweredBy host call
  breakdown := True

theorem Contract.answering_fits {s : Scope} {parts : List Expr} {since : List Invocation}
    {call : World → Invocation → Prop} (h : ∀ w i, i.Checked s parts since w → call w i) :
    (answering s.host since call).Fits s parts where
  call := h
  own f hf := by
    unfold answering Fault.AnsweredBy
    dsimp only
    split
    · cases hf
    · trivial
  answer w i message hi hanswer := ⟨w, i, h w i hi, rfl, rfl, hanswer⟩
  breakdown _ := trivial

/-- It is made for some row by one of these parts, after a look at the capability since then. -/
def CheckedBy (env : Environment) (c : Context) (parts : List Expr) (since : List Invocation)
    (w : World) (i : Invocation) : Prop :=
  ∃ row, i.Checked (JoinGroup.scope env c row) parts since w

/-! ## Registries -/

/-- The registry stands behind the handle: the operations are those registered, at all times. -/
structure Host.Registers (host : Host) (handle : Handle) (r : Registry) : Prop where
  capability : host.capability handle = r.toCapability
  offers : ∀ earlier, host.offers earlier handle = r.toCapability.has

/-- A registry that has the operation calls what is registered. -/
theorem Registry.exists_operation {r : Registry} {operation : String} {arguments : List Value}
    (h : r.toCapability.has operation arguments.length = true) :
    ∃ op, r.find? operation arguments.length = some op ∧
      ∀ earlier, r.toCapability.invoke earlier operation arguments = op earlier arguments := by
  obtain ⟨op, hop⟩ := Option.isSome_iff_exists.mp h
  refine ⟨op, hop, ?_⟩
  intro earlier
  show r.invoke earlier operation arguments = _
  rw [invoke, hop]

/-! ## Queries and expressions -/

def Stop.faults : Stop → List Fault
  | .fault f => [f]
  | .loaderPanic => []

def Halt.faults : Halt → List Fault
  | .error e => e.faults
  | .loaderPanic => []

/-- What is reported of a run that ends so. -/
def reported {ε α : Type} (faults : ε → List Fault) : Except ε α → List Fault
  | .ok _ => []
  | .error e => faults e

/-- What a run does to capabilities: the calls it made, from the earlier list to the later one, and
the faults it reported. -/
structure HeedsCapabilities (host : Host) (call : World → Invocation → Prop)
    (earlier later : List Invocation) (faults : List Fault) : Prop where
  called : CalledSince call earlier later
  /-- Before every call, in the course of the run, the capability was asked for the operation, with
  as many arguments, and had it. -/
  offered : ∀ front i back, later = earlier ++ front ++ i :: back →
    ∃ asked, earlier <+: asked ∧ asked <+: earlier ++ front ∧
      host.offers asked i.target i.operation i.arguments.length = true
  /-- A call that failed is reported as its operation answered it, one that is registered if the
  capability is a registry. -/
  answered : ∀ typeName operation message,
    .invocation (.failed typeName operation message) ∈ faults →
      ∃ w i, call w i ∧ i.target.typeName = typeName ∧ i.operation = operation ∧
        ((host.capability i.target).invoke w.invocations operation i.arguments).result =
          .error message ∧
        ∀ r : Registry, host.Registers i.target r →
          ∃ op, r.find? operation i.arguments.length = some op ∧
            (op w.invocations i.arguments).result = .error message

theorem Abides.heedsCapabilities {ε α : Type} {host : Host} {call : World → Invocation → Prop}
    {A : α → Prop} {E : ε → Prop} {faults : ε → List Fault} {m : Run ε α} {w : World}
    (h : Abides call A E m w) (hfaults : ∀ e, E e → ∀ f ∈ faults e, f.AnsweredBy host call)
    (hoffered : ∀ w' i, call w' i → ∃ asked, w.invocations <+: asked ∧ asked <+: w'.invocations ∧
      host.offers asked i.target i.operation i.arguments.length = true) :
    HeedsCapabilities host call w.invocations (outcome m w).2.invocations
      (reported faults (outcome m w).1) where
  called := h.called
  offered := by
    obtain ⟨made, hmade, hcalls⟩ := h.called
    intro front i back hlater
    rw [hmade, List.append_assoc] at hlater
    obtain ⟨w', hw', hcall⟩ := hcalls front i back (List.append_cancel_left hlater)
    rw [← hw']
    exact hoffered w' i hcall
  answered := by
    intro typeName operation message hf
    cases hout : (outcome m w).1 with
    | ok a =>
      rw [hout] at hf
      cases hf
    | error e =>
      rw [hout] at hf
      obtain ⟨w', i, hcall, htype, rfl, hresult⟩ := hfaults e (h.error e hout) _ hf
      refine ⟨w', i, hcall, htype, rfl, hresult, ?_⟩
      intro r hr
      obtain ⟨asked, -, -, hasked⟩ := hoffered w' i hcall
      rw [hr.offers] at hasked
      rw [hr.capability] at hresult
      obtain ⟨op, hop, hinvoke⟩ := Registry.exists_operation hasked
      rw [hinvoke] at hresult
      exact ⟨op, hop, hresult⟩

namespace Query

/-- Capabilities are called for operations they have said they have, for as many arguments, when the
target of the call had been evaluated and its arguments had not. So it is in every run of a query or
of an expression, whatever host, loaders and executors do; and where a capability has no such
operation when its target has been evaluated, the call ends there, in the world its target left. -/
theorem execute_checked (env : Environment) (c : Context) :
    (∀ (q : Query) (w : World),
      HeedsCapabilities env.host (CheckedBy env c q.parts w.invocations) w.invocations
        (outcome (q.execute env c) w).2.invocations
        (reported Halt.faults (outcome (q.execute env c) w).1)) ∧
    (∀ (row : Row) (e : Expr) (w : World),
      let s := JoinGroup.scope env c row
      HeedsCapabilities env.host (Invocation.Checked s e.parts w.invocations) w.invocations
        (outcome (s.evaluate e) w).2.invocations
        (reported Stop.faults (outcome (s.evaluate e) w).1)) ∧
    (∀ (row : Row) (target : Expr) (operation : String) (arguments : List Expr) (w w₁ : World)
      (handle : Handle),
      let s := JoinGroup.scope env c row
      outcome (s.evaluate target) w = (.ok (.capability handle), w₁) →
      env.host.offers w₁.invocations handle operation arguments.length = false →
      outcome (s.evaluate (.call target operation arguments)) w =
        (.error (.fault (.invocation
          (.noSuchOperation handle.typeName operation arguments.length))), w₁)) := by
  refine ⟨?_, ?_, ?_⟩
  · intro q w
    have hfits : ∀ row, (Contract.answering env.host w.invocations
        (CheckedBy env c q.parts w.invocations)).Fits (JoinGroup.scope env c row) q.parts := by
      intro row
      apply Contract.answering_fits (s := JoinGroup.scope env c row)
      intro w' i hi
      exact ⟨row, hi⟩
    apply (Contract.executes_execute hfits (List.Subset.refl _) (.inl fun _ => trivial)
      (List.prefix_refl _)).heedsCapabilities
    · intro halt hhalt f hf
      cases halt with
      | error e => exact hhalt f hf
      | loaderPanic => cases hf
    · rintro w' i ⟨row, hi⟩
      exact hi.exists_offered
  · intro row e w s
    have hfits : (Contract.answering s.host w.invocations
        (Invocation.Checked s e.parts w.invocations)).Fits s e.parts :=
      Contract.answering_fits fun w i hi => hi
    apply (hfits.evaluate e (List.Subset.refl _) w (List.prefix_refl _)).heedsCapabilities
    · intro stop hstop f hf
      cases stop with
      | fault f' =>
        rw [List.mem_singleton.mp hf]
        exact hstop
      | loaderPanic => cases hf
    · intro w' i hi
      exact hi.exists_offered
  · intro row target operation arguments w w₁ handle s htarget hnone
    have hasked := s.outcome_offers handle operation arguments.length w₁
    rw [show s.host.offers w₁.invocations handle operation arguments.length = false from hnone]
      at hasked
    rw [Scope.evaluate, outcome_bind_ok htarget]
    exact outcome_bind_ok hasked

/-- Fruit that is checked when it has been picked: the check fails for the reason of the operation
that is registered. Checking two at once is not an operation, and then neither is picked. -/
theorem execute_checked_fruit :
    let registry : Registry := ⟨"api", [(("pick", 1), fun _ values => .returned (values.headD .null)),
      (("check", 1), fun _ _ => .failed "rotten")]⟩
    let env : Environment := { host := { capability := fun _ => registry.toCapability } }
    let c : Context := { innermost := { values := ⟨[
      ("items", .array [.string "pear"]), ("api", .capability ⟨0, "api"⟩)]⟩ } }
    let pick : Expr := .call (.variable "api") "pick" [.literal (.string "fig")]
    let q : Query := {
      source := ⟨"items", "x"⟩, restriction := none, projection := [("a", .variable "a")]
      groups := [⟨[⟨"a", .call (.variable "api") "check" [pick], none, .async none none⟩]⟩] }
    (outcome (q.execute env c) {}).2.invocations =
      [⟨⟨0, "api"⟩, "pick", [.string "fig"]⟩, ⟨⟨0, "api"⟩, "check", [.string "fig"]⟩] ∧
    (∃ w i op, CheckedBy env c q.parts [] w i ∧ registry.find? "check" i.arguments.length = some op ∧
      (op w.invocations i.arguments).result = .error "rotten") ∧
    outcome ((JoinGroup.scope env c ⟨0, []⟩).evaluate
        (.call (.variable "api") "check" [pick, pick])) {} =
      (.error (.fault (.invocation (.noSuchOperation "api" "check" 2))), {}) := by
  intro registry env c pick q
  obtain ⟨hquery, -, hcall⟩ := execute_checked env c
  have hfault : Fault.invocation (.failed "api" "check" "rotten") ∈
      reported Halt.faults (outcome (q.execute env c) {}).1 := by
    rw [show (outcome (q.execute env c) {}).1 = .error (.error (.ofFailures
      [⟨0, "a", .invocation (.failed "api" "check" "rotten")⟩])) from rfl]
    simp [reported, Halt.faults, QueryError.faults, QueryError.ofFailures, RowFailure.sort]
  obtain ⟨w, i, hi, -, -, -, hregistered⟩ := (hquery q {}).answered _ _ _ hfault
  obtain ⟨op, hop, hresult⟩ := hregistered registry ⟨rfl, fun _ => rfl⟩
  exact ⟨rfl, ⟨w, i, op, hi, hop, hresult⟩,
    hcall ⟨0, []⟩ (.variable "api") "check" [pick, pick] {} {} ⟨0, "api"⟩ rfl rfl⟩

/-- Checking is an operation once something has been picked. The argument of a check picks, but by
then the capability has been asked. -/
example :
    let host : Host := {
      capability := fun _ => ⟨fun operation _ => operation == "pick", fun _ _ _ => .returned .null⟩
      offers := fun earlier _ operation _ => operation == "pick" || !earlier.isEmpty
      offers_nil := fun _ => funext fun _ => funext fun _ => Bool.or_false _ }
    let c : Context := { innermost := { values := ⟨[("api", .capability ⟨0, "api"⟩)]⟩ } }
    let s : Scope := ⟨host, c, ⟨0, []⟩⟩
    let pick : Expr := .call (.variable "api") "pick" []
    let check : Expr := .call (.variable "api") "check" [pick]
    outcome (s.evaluate check) {} =
        (.error (.fault (.invocation (.noSuchOperation "api" "check" 1))), {}) ∧
      (outcome (s.evaluateAll [pick, check]) {}).2.invocations.map Invocation.operation =
        ["pick", "pick", "check"] := ⟨rfl, rfl⟩

end Query
end RowQuery
