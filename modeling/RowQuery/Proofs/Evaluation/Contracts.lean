import RowQuery.Proofs.Evaluation.Memory

/-!
# Contracts of runs

A `Contract` says what a run may do to the host and how it may end: in which worlds it makes which
calls, what faults it reports, whether it may break down with a loader. `Abides` says that a run keeps
to it from one world. It is closed under sequencing, where the second step is started in the world
that the first one left; so it can be said of a call in which world its operation was looked up. That
this was after the contract had come into force is known of every step, since calls are only added.

Every expression keeps to every contract that allows what `Contract.Fits` lists
(`Contract.Fits.evaluate`), and what it does not find need only be allowed where it is not found
(`Contract.Admits.evaluate`). Above all it makes no call without a look at the capability first: a call
asks for its operation when its target has been evaluated and none of its arguments has, a property
when its value is a capability (`Invocation.Checked`).
-/

set_option autoImplicit false

namespace RowQuery

open Run

/-! ## Parts of expressions -/

namespace Expr

mutual

/-- The expression and all that it is made of. -/
def parts : Expr → List Expr
  | .literal v => [.literal v]
  | .variable name => [.variable name]
  | .path base segments => .path base segments :: base.parts
  | .add left right => .add left right :: (left.parts ++ right.parts)
  | .compare op left right => .compare op left right :: (left.parts ++ right.parts)
  | .and left right => .and left right :: (left.parts ++ right.parts)
  | .or left right => .or left right :: (left.parts ++ right.parts)
  | .not operand => .not operand :: operand.parts
  | .call target operation arguments =>
    .call target operation arguments :: (target.parts ++ partsAll arguments)
termination_by structural e => e

def partsAll : List Expr → List Expr
  | [] => []
  | e :: rest => e.parts ++ partsAll rest
termination_by structural es => es

end

end Expr

def Restriction.parts : Restriction → List Expr
  | .compare _ left right => left.parts ++ right.parts
  | .and left right => left.parts ++ right.parts
  | .or left right => left.parts ++ right.parts
  | .not operand => operand.parts
  | .holds e => e.parts

/-! ## Calls -/

/-- The call is made in this world by one of the parts, after a look at the capability, which was
taken when the calls `since` had been made. -/
inductive Invocation.Checked (s : Scope) (parts : List Expr) (since : List Invocation) :
    World → Invocation → Prop
  /-- The capability has the operation, for the arguments that are yet to be evaluated. -/
  | call {target : Expr} {operation : String} {arguments : List Expr} {w₀ w₁ w₂ : World}
      {handle : Handle} {values : List Value} (part : .call target operation arguments ∈ parts)
      (started : since <+: w₀.invocations)
      (targeted : outcome (s.evaluate target) w₀ = (.ok (.capability handle), w₁))
      (offered : s.host.offers w₁.invocations handle operation arguments.length = true)
      (evaluated : outcome (s.evaluateAll arguments) w₁ = (.ok values, w₂)) :
      Checked s parts since w₂ ⟨handle, operation, values⟩
  /-- The capability has an operation of the name of the property, or else has its getter. -/
  | property {base : Expr} {segments : List Segment} {segment : Segment} {operation : String}
      {w : World} {handle : Handle} (part : .path base segments ∈ parts)
      (read : segment ∈ segments) (started : since <+: w.invocations)
      (named : operation = segment.name ∨
        s.host.offers w.invocations handle segment.name 0 = false ∧
          operation = Scope.getterName segment.name)
      (offered : s.host.offers w.invocations handle operation 0 = true) :
      Checked s parts since w ⟨handle, operation, []⟩

theorem Scope.length_evaluateAll (s : Scope) (es : List Expr) :
    Yields (·.length = es.length) (s.evaluateAll es) := by
  induction es with
  | nil => exact .pure rfl
  | cons e rest ih =>
    refine .bind_free fun v => ih.bind fun values hvalues => .pure ?_
    rw [List.length_cons, List.length_cons, hvalues]

/-- The later list goes on from the earlier one, and each of the calls added was made so in a world
where the calls before it had been made. -/
def CalledSince (P : World → Invocation → Prop) (earlier later : List Invocation) : Prop :=
  ∃ made, later = earlier ++ made ∧ ∀ front i back, made = front ++ i :: back →
    ∃ w, w.invocations = earlier ++ front ∧ P w i

namespace CalledSince

variable {P : World → Invocation → Prop} {calls calls' calls'' : List Invocation}

theorem refl (calls : List Invocation) : CalledSince P calls calls :=
  ⟨[], (List.append_nil _).symm, fun _ _ _ h => by cases List.append_eq_nil_iff.mp h.symm |>.2⟩

theorem grown (h : CalledSince P calls calls') : calls <+: calls' := by
  obtain ⟨made, rfl, -⟩ := h
  exact List.prefix_append calls made

theorem single {w : World} {i : Invocation} (h : P w i) :
    CalledSince P w.invocations (w.invocations ++ [i]) := by
  refine ⟨[i], rfl, fun front j back hsplit => ?_⟩
  obtain ⟨rfl, hcons⟩ | ⟨_, hnil⟩ := List.append_eq_singleton_iff.mp hsplit.symm
  · cases hcons
    exact ⟨w, (List.append_nil _).symm, h⟩
  · cases hnil

theorem trans (h : CalledSince P calls calls') (h' : CalledSince P calls' calls'') :
    CalledSince P calls calls'' := by
  obtain ⟨made, rfl, hmade⟩ := h
  obtain ⟨more, rfl, hmore⟩ := h'
  refine ⟨made ++ more, List.append_assoc _ _ _, fun front i back hsplit => ?_⟩
  -- the call is one of those added first or one of those added then
  obtain ⟨between, hfront, hback⟩ | ⟨between, hmade', hback⟩ := List.append_eq_append_iff.mp hsplit
  · obtain ⟨w, hw, hi⟩ := hmore between i back hback
    exact ⟨w, by rw [hw, hfront, List.append_assoc], hi⟩
  · cases between with
    | nil =>
      rw [List.append_nil] at hmade'
      obtain ⟨w, hw, hi⟩ := hmore [] i back hback.symm
      exact ⟨w, by rw [hw, hmade', List.append_nil], hi⟩
    | cons j between =>
      obtain ⟨rfl, -⟩ := List.cons.inj hback
      exact hmade front i between hmade'

end CalledSince

/-! ## Contracts -/

/-- What a run may do and how it may end. -/
structure Contract where
  /-- The calls that had been made when it came into force. -/
  since : List Invocation
  /-- The calls it may make, and the worlds it may make them in. -/
  call : World → Invocation → Prop
  /-- The faults it may report. -/
  fault : Fault → Prop
  /-- Whether it may break down with a loader. -/
  breakdown : Prop

def Stop.Meets (k : Contract) : Stop → Prop
  | .fault f => k.fault f
  | .loaderPanic => k.breakdown

/-- From this world the run makes such calls only, and what it ends in is as the two say. -/
structure Abides {ε α : Type} (call : World → Invocation → Prop) (A : α → Prop) (E : ε → Prop)
    (m : Run ε α) (w : World) : Prop where
  called : CalledSince call w.invocations (outcome m w).2.invocations
  ok : ∀ a, (outcome m w).1 = .ok a → A a
  error : ∀ e, (outcome m w).1 = .error e → E e

namespace Abides

variable {ε α β : Type} {call : World → Invocation → Prop} {A : α → Prop} {B : β → Prop}
  {E : ε → Prop} {m : Run ε α} {f : α → Run ε β} {w w' : World} {r : Except ε α}

theorem grown (h : Abides call A E m w) (hout : outcome m w = (r, w')) :
    w.invocations <+: w'.invocations := by
  have hcalled := h.called
  rw [hout] at hcalled
  exact hcalled.grown

theorem pure {a : α} (h : A a) (w : World) : Abides call A E (pure a : Run ε α) w where
  called := .refl _
  ok _ heq := by cases heq; exact h
  error _ heq := by cases heq

theorem throw {e : ε} (h : E e) (w : World) : Abides call A E (throw e : Run ε α) w where
  called := .refl _
  ok _ heq := by cases heq
  error _ heq := by cases heq; exact h

theorem bind (hm : Abides call A E m w)
    (hf : ∀ a w', outcome m w = (.ok a, w') → A a → Abides call B E (f a) w') :
    Abides call B E (m >>= f) w := by
  rcases hout : outcome m w with ⟨e | a, w'⟩
  · have hcalled := hm.called
    rw [hout] at hcalled
    refine ⟨?_, fun b hb => ?_, fun e' he' => ?_⟩
    all_goals rw [outcome_bind_error hout] at *
    · exact hcalled
    · cases hb
    · cases he'
      exact hm.error e (by rw [hout])
  · have hcalled := hm.called
    rw [hout] at hcalled
    obtain ⟨hcalled', hok, herror⟩ := hf a w' hout (hm.ok a (by rw [hout]))
    refine ⟨?_, fun b hb => ?_, fun e' he' => ?_⟩
    all_goals rw [outcome_bind_ok hout] at *
    · exact hcalled.trans hcalled'
    · exact hok b hb
    · exact herror e' he'

end Abides

/-- Whether the fault tells neither what an operation answered nor that a task was lost. -/
def Fault.isOwn : Fault → Bool
  | .invocation (.failed _ _ _) => false
  | .invalidQuery (.lostTask _) => false
  | _ => true

/-- Whether the fault is a name that nothing is known of. -/
def Fault.isUndefined : Fault → Bool
  | .unresolved (.undefined _) => true
  | .unresolved (.sourceUndefined _) => true
  | _ => false

namespace Contract

/-- The contract allows what evaluating these parts may come to. -/
structure Fits (k : Contract) (s : Scope) (parts : List Expr) : Prop where
  call : ∀ (w : World) (i : Invocation), i.Checked s parts k.since w → k.call w i
  own : ∀ f : Fault, f.isOwn = true → k.fault f
  /-- A call that fails may be reported as its operation answered it. -/
  answer : ∀ (w : World) (i : Invocation) (message : String), i.Checked s parts k.since w →
    ((s.host.capability i.target).invoke w.invocations i.operation i.arguments).result =
      .error message → k.fault (.invocation (.failed i.target.typeName i.operation message))
  breakdown : (∃ loader ∈ s.context.loaders, ¬loader.AlwaysAnswers) → k.breakdown

/-- The contract allows what evaluating these parts may come to, where a variable is only reported
when neither the row nor the context knows it. -/
structure Admits (k : Contract) (s : Scope) (parts : List Expr) : Prop where
  call : ∀ (w : World) (i : Invocation), i.Checked s parts k.since w → k.call w i
  own : ∀ f : Fault, f.isOwn = true → f.isUndefined = false → k.fault f
  undefined : ∀ (w : World) (name : String), .variable name ∈ parts → s.row.get? name = none →
    (outcome (s.context.get? name) w).1 = .ok none → k.fault (.unresolved (.undefined name))
  answer : ∀ (w : World) (i : Invocation) (message : String), i.Checked s parts k.since w →
    ((s.host.capability i.target).invoke w.invocations i.operation i.arguments).result =
      .error message → k.fault (.invocation (.failed i.target.typeName i.operation message))
  breakdown : (∃ loader ∈ s.context.loaders, ¬loader.AlwaysAnswers) → k.breakdown

theorem Fits.admits {k : Contract} {s : Scope} {parts : List Expr} (h : k.Fits s parts) :
    k.Admits s parts where
  call := h.call
  own f hown _ := h.own f hown
  undefined _ _ _ _ _ := h.own _ rfl
  answer := h.answer
  breakdown := h.breakdown

/-- Started when the contract is in force, the evaluation keeps to it. -/
abbrev Evaluates (k : Contract) {α : Type} (m : Evaluation α) (w : World) : Prop :=
  k.since <+: w.invocations → Abides k.call (fun _ => True) (Stop.Meets k) m w

end Contract

/-! ## Lookups -/

namespace Context

theorem exists_of_error_load {loader : Loader} {name : String} {w : World} {e : Stop}
    (h : (outcome (load loader name) w).1 = .error e) :
    e = .loaderPanic ∧ ¬loader.AlwaysAnswers := by
  unfold load at h
  rw [outcome_bind_ok (outcome_get w)] at h
  dsimp only at h
  cases hmem : w.loaded.lookup ⟨loader.id, name⟩ with
  | some answer =>
    rw [hmem] at h
    cases h
  | none =>
    rw [hmem] at h
    cases hreply : loader.resolve w.loads name with
    | panicked =>
      rw [hreply] at h
      cases h
      exact ⟨rfl, fun halways => halways w.loads name hreply⟩
    | found v =>
      rw [hreply] at h
      cases h
    | unknown =>
      rw [hreply] at h
      cases h

/-- A lookup stops only where a loader breaks down. -/
theorem exists_of_error_getFrom {name : String} {e : Stop} (layers : List Layer) : ∀ w : World,
    (outcome (getFrom name layers) w).1 = .error e →
      e = .loaderPanic ∧ ∃ loader ∈ layers.filterMap Layer.loader, ¬loader.AlwaysAnswers := by
  induction layers with
  | nil =>
    intro w h
    cases h
  | cons layer outer ih =>
    intro w h
    unfold getFrom at h
    split at h
    · cases h
    · split at h
      · next hloader =>
        rw [List.filterMap_cons_none hloader]
        exact ih w h
      · next loader hloader =>
        rw [List.filterMap_cons_some hloader]
        rcases hout : outcome (load loader name) w with ⟨e' | answer, w'⟩
        · rw [outcome_bind_error hout] at h
          cases h
          obtain ⟨rfl, hnot⟩ := exists_of_error_load (congrArg Prod.fst hout)
          exact ⟨rfl, loader, List.mem_cons_self, hnot⟩
        · rw [outcome_bind_ok hout] at h
          cases answer with
          | some v => cases h
          | none =>
            obtain ⟨rfl, other, hother, hnot⟩ := ih w' h
            exact ⟨rfl, other, List.mem_cons_of_mem _ hother, hnot⟩

end Context

/-! ## Expressions -/

namespace Contract

variable {k : Contract} {s : Scope} {parts : List Expr} {α β : Type}

theorem evaluates_pure (a : α) (w : World) : k.Evaluates (pure a : Evaluation α) w :=
  fun _ => .pure trivial w

theorem Evaluates.bind {m : Evaluation α} {f : α → Evaluation β} {w : World} (hm : k.Evaluates m w)
    (hf : ∀ a w', outcome m w = (.ok a, w') → k.Evaluates (f a) w') : k.Evaluates (m >>= f) w :=
  fun hw => Abides.bind (hm hw) fun a w' hout _ => hf a w' hout (hw.trans ((hm hw).grown hout))

/-- A capability is asked for an operation. -/
theorem Evaluates.offers {target : Handle} {operation : String} {arity : Nat}
    {f : Bool → Evaluation α} {w : World} (hf : k.Evaluates
      (f (s.host.offers w.invocations target operation arity)) w) :
    k.Evaluates (s.offers target operation arity >>= f) w := by
  refine .bind (fun _ => ⟨.refl _, fun _ _ => trivial, fun _ he => by cases he⟩) ?_
  intro offered w' hout
  cases hout
  exact hf

namespace Admits

variable (h : k.Admits s parts)

include h

theorem fail {f : Fault} (hown : f.isOwn = true) (hdefined : f.isUndefined = false) (w : World) :
    k.Evaluates (Run.fail f : Evaluation α) w := by
  intro _
  apply Abides.throw
  exact h.own f hown hdefined

theorem operator (outcome : Except Mismatch α) (w : World) :
    k.Evaluates (Scope.operator outcome) w := by
  unfold Scope.operator
  split
  · exact evaluates_pure _ w
  · exact h.fail rfl rfl w

theorem get? (name : String) (w : World) : k.Evaluates (s.context.get? name) w := by
  intro _
  refine ⟨?_, fun _ _ => trivial, fun e he => ?_⟩
  · rw [(Context.sameDeeds_get? s.context name w).invocations]
    exact .refl _
  · obtain ⟨rfl, hloader⟩ := Context.exists_of_error_getFrom s.context.layers w he
    exact h.breakdown hloader

theorem lookup {name : String} (hpart : .variable name ∈ parts) (w : World) :
    k.Evaluates (s.lookup name) w := by
  unfold Scope.lookup
  split
  · exact evaluates_pure _ w
  · next hrow =>
    apply (h.get? name w).bind
    intro answer w' hanswer
    split
    · exact evaluates_pure _ w'
    · intro _
      apply Abides.throw
      exact h.undefined w name hpart hrow (congrArg Prod.fst hanswer)

theorem invoke {w : World} {target : Handle} {operation : String} {arguments : List Value}
    (hchecked : Invocation.Checked s parts k.since w ⟨target, operation, arguments⟩) :
    k.Evaluates (s.invoke target operation arguments) w := by
  intro _
  have hout := Scope.outcome_invoke_at s target operation arguments w
  refine ⟨?_, fun _ _ => trivial, fun e he => ?_⟩
  · rw [hout]
    exact .single (h.call _ _ hchecked)
  · rw [hout] at he
    cases hanswer : ((s.host.capability target).invoke w.invocations operation arguments).result with
    | ok v =>
      rw [hanswer] at he
      cases he
    | error message =>
      rw [hanswer] at he
      cases he
      exact h.answer w _ message hchecked hanswer

/-- A property asks for its own name before it asks for its getter's. -/
theorem property {base : Expr} {segments : List Segment} {segment : Segment}
    (hpart : .path base segments ∈ parts) (hread : segment ∈ segments) (v : Value) (walked : String)
    (w : World) : k.Evaluates (s.property v segment.name walked) w := by
  intro hw
  cases v with
  | object fields => exact evaluates_pure _ w hw
  | capability handle =>
    refine Evaluates.offers ?_ hw
    split
    · next hoffered => exact h.invoke (.property hpart hread hw (.inl rfl) hoffered)
    · next hoffered =>
      have hnot := Bool.eq_false_iff.mpr hoffered
      apply Evaluates.offers
      split
      · next hgetter => exact h.invoke (.property hpart hread hw (.inr ⟨hnot, rfl⟩) hgetter)
      · exact h.fail rfl rfl w
  | _ => exact h.fail rfl rfl w hw

theorem walk {base : Expr} {segments : List Segment} (hpart : .path base segments ∈ parts) :
    ∀ rest : List Segment, rest ⊆ segments → ∀ walked v w, k.Evaluates (s.walk walked v rest) w := by
  intro rest
  induction rest with
  | nil =>
    intro _ _ v w
    exact evaluates_pure v w
  | cons segment rest ih =>
    intro hread walked v w
    obtain ⟨hsegment, hrest⟩ := List.cons_subset.mp hread
    unfold Scope.walk
    split
    · split
      · exact evaluates_pure _ w
      · exact h.fail rfl rfl w
    · apply (h.property hpart hsegment v walked w).bind
      intro u w' _
      split
      · exact evaluates_pure _ w'
      · exact ih hrest _ u w'

omit h

mutual

/-- An expression keeps to the contract. In the case of a call the world in which the operation is
looked up is the one that its target leaves. -/
theorem evaluate (h : k.Admits s parts) : ∀ e : Expr, e.parts ⊆ parts → ∀ w, k.Evaluates (s.evaluate e) w
  | .literal v, _, w => evaluates_pure v w
  | .variable _, hparts, w => h.lookup (hparts List.mem_cons_self) w
  | .path base segments, hparts, w => by
    obtain ⟨hpath, hbase⟩ := List.cons_subset.mp hparts
    exact .bind (evaluate h base hbase w) fun v w' _ =>
      h.walk hpath segments (List.Subset.refl _) _ v w'
  | .add left right, hparts, w => by
    obtain ⟨hleft, hright⟩ := List.append_subset.mp (List.cons_subset.mp hparts).2
    exact .bind (evaluate h left hleft w) fun l w₁ _ =>
      .bind (evaluate h right hright w₁) fun r w₂ _ => h.operator _ w₂
  | .compare op left right, hparts, w => by
    obtain ⟨hleft, hright⟩ := List.append_subset.mp (List.cons_subset.mp hparts).2
    exact .bind (evaluate h left hleft w) fun l w₁ _ =>
      .bind (evaluate h right hright w₁) fun r w₂ _ =>
        .bind (h.operator _ w₂) fun _ w₃ _ => evaluates_pure _ w₃
  | .and left right, hparts, w => by
    obtain ⟨hleft, hright⟩ := List.append_subset.mp (List.cons_subset.mp hparts).2
    refine .bind (evaluate h left hleft w) fun l w₁ _ => .bind (h.operator _ w₁) fun b w₂ _ => ?_
    cases b with
    | false => exact evaluates_pure _ w₂
    | true =>
      exact .bind (evaluate h right hright w₂) fun r w₃ _ =>
        .bind (h.operator _ w₃) fun _ w₄ _ => evaluates_pure _ w₄
  | .or left right, hparts, w => by
    obtain ⟨hleft, hright⟩ := List.append_subset.mp (List.cons_subset.mp hparts).2
    refine .bind (evaluate h left hleft w) fun l w₁ _ => .bind (h.operator _ w₁) fun b w₂ _ => ?_
    cases b with
    | true => exact evaluates_pure _ w₂
    | false =>
      exact .bind (evaluate h right hright w₂) fun r w₃ _ =>
        .bind (h.operator _ w₃) fun _ w₄ _ => evaluates_pure _ w₄
  | .not operand, hparts, w =>
    .bind (evaluate h operand (List.cons_subset.mp hparts).2 w) fun v w₁ _ =>
      .bind (h.operator _ w₁) fun _ w₂ _ => evaluates_pure _ w₂
  | .call target operation arguments, hparts, w => by
    obtain ⟨hcall, hparts⟩ := List.cons_subset.mp hparts
    obtain ⟨htarget, harguments⟩ := List.append_subset.mp hparts
    intro hw
    refine Evaluates.bind (evaluate h target htarget w) (fun v w₁ htargeted => ?_) hw
    cases v with
    | capability handle =>
      apply Evaluates.offers
      split
      · next hoffered =>
        exact .bind (evaluateAll h arguments harguments w₁) fun values w₂ hevaluated =>
          h.invoke (.call hcall hw htargeted hoffered hevaluated)
      · exact h.fail rfl rfl w₁
    | _ => exact h.fail rfl rfl w₁

theorem evaluateAll (h : k.Admits s parts) : ∀ es : List Expr, Expr.partsAll es ⊆ parts →
    ∀ w, k.Evaluates (s.evaluateAll es) w
  | [], _, w => evaluates_pure [] w
  | e :: rest, hparts, w => by
    obtain ⟨he, hrest⟩ := List.append_subset.mp hparts
    exact .bind (evaluate h e he w) fun v w₁ _ =>
      .bind (evaluateAll h rest hrest w₁) fun values w₂ _ => evaluates_pure _ w₂

end

include h

theorem satisfies (r : Restriction) (hparts : r.parts ⊆ parts) :
    ∀ w, k.Evaluates (s.satisfies r) w := by
  induction r with
  | compare op left right =>
    intro w
    obtain ⟨hleft, hright⟩ := List.append_subset.mp hparts
    exact .bind (h.evaluate left hleft w) fun l w₁ _ =>
      .bind (h.evaluate right hright w₁) fun r w₂ _ => h.operator _ w₂
  | and left right ihl ihr =>
    intro w
    obtain ⟨hleft, hright⟩ := List.append_subset.mp hparts
    refine .bind (ihl hleft w) fun met w₁ _ => ?_
    cases met with
    | true => exact ihr hright w₁
    | false => exact evaluates_pure _ w₁
  | or left right ihl ihr =>
    intro w
    obtain ⟨hleft, hright⟩ := List.append_subset.mp hparts
    refine .bind (ihl hleft w) fun met w₁ _ => ?_
    cases met with
    | true => exact evaluates_pure _ w₁
    | false => exact ihr hright w₁
  | not operand ih =>
    intro w
    exact .bind (ih hparts w) fun _ w₁ _ => evaluates_pure _ w₁
  | holds e =>
    intro w
    exact .bind (h.evaluate e hparts w) fun _ w₁ _ => h.operator _ w₁

theorem projectOnto (projection : Projection)
    (hparts : (projection.flatMap fun field => field.2.parts) ⊆ parts) :
    ∀ object w, k.Evaluates (s.projectOnto object projection) w := by
  induction projection with
  | nil =>
    intro object w
    exact evaluates_pure object w
  | cons field rest ih =>
    intro object w
    obtain ⟨hfield, hrest⟩ := List.append_subset.mp hparts
    exact .bind (h.evaluate field.2 hfield w) fun v w₁ _ => ih hrest _ w₁

theorem passes (guards : List Expr) (hparts : guards.flatMap Expr.parts ⊆ parts) :
    ∀ w, k.Evaluates (JoinGroup.passes s guards) w := by
  induction guards with
  | nil =>
    intro w
    exact evaluates_pure true w
  | cons guard rest ih =>
    intro w
    obtain ⟨hguard, hrest⟩ := List.append_subset.mp hparts
    unfold JoinGroup.passes
    refine .bind (h.evaluate guard hguard w) fun v w₁ _ => ?_
    split
    · exact evaluates_pure _ w₁
    · exact evaluates_pure _ w₁
    · exact ih hrest w₁

end Admits

theorem Fits.evaluate (h : k.Fits s parts) (e : Expr) (hparts : e.parts ⊆ parts) (w : World) :
    k.Evaluates (s.evaluate e) w :=
  h.admits.evaluate e hparts w

/-- Everything is allowed. -/
def unlimited : Contract := ⟨[], fun _ _ => True, fun _ => True, True⟩

theorem unlimited_fits (s : Scope) (parts : List Expr) : unlimited.Fits s parts :=
  ⟨fun _ _ _ => trivial, fun _ _ => trivial, fun _ _ _ _ _ => trivial, fun _ => trivial⟩

end Contract

/-- Before the call, in the course of the run, the capability said that it has the operation for the
arguments that it is given. -/
theorem Invocation.Checked.exists_offered {s : Scope} {parts : List Expr} {since : List Invocation}
    {w : World} {i : Invocation} (h : i.Checked s parts since w) :
    ∃ asked, since <+: asked ∧ asked <+: w.invocations ∧
      s.host.offers asked i.target i.operation i.arguments.length = true := by
  cases h with
  | @call target _ arguments w₀ w₁ _ _ _ _ started targeted offered evaluated =>
    have hfits := fun es => (Contract.unlimited_fits s es).admits
    have htarget := (hfits _).evaluate target (List.Subset.refl _) w₀ List.nil_prefix
    have harguments := (hfits _).evaluateAll arguments (List.Subset.refl _) w₁ List.nil_prefix
    refine ⟨w₁.invocations, started.trans (htarget.grown targeted), harguments.grown evaluated, ?_⟩
    rw [Scope.length_evaluateAll _ _ _ _ _ evaluated]
    exact offered
  | property _ _ started _ offered => exact ⟨w.invocations, started, List.prefix_refl _, offered⟩

end RowQuery
