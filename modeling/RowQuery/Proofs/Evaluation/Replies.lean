import RowQuery.Proofs.Evaluation.Coincidence

/-!
# Operations that break down

What becomes of a call is the result of its reply, and a reply that the operation broke down has the
result of one that it failed. Hosts that differ in no more than that (`Host.SameResults`) are the same
to every expression: evaluation is the same computation with either, from every world. Every host is
so related to a host of which no operation breaks down (`Host.tame`).
-/

set_option autoImplicit false

namespace RowQuery

/-! ## Hosts -/

/-- The reply, with a failure in the place of a breakdown. -/
def Reply.tame : Reply → Reply
  | .panicked text => .failed ("panicked: " ++ text.getD "operation panicked")
  | reply => reply

theorem Reply.result_tame (reply : Reply) : reply.tame.result = reply.result := by
  cases reply <;> rfl

theorem Reply.tame_ne_panicked (reply : Reply) (text : Option String) :
    reply.tame ≠ .panicked text := by
  cases reply with
  | returned v => exact nofun
  | failed message => exact nofun
  | panicked text' =>
    intro h
    cases h

namespace Host

/-- The host whose operations fail where they broke down. -/
def tame (host : Host) : Host where
  capability handle := {
    has := (host.capability handle).has
    invoke := fun earlier operation arguments =>
      ((host.capability handle).invoke earlier operation arguments).tame }
  offers := host.offers
  offers_nil := host.offers_nil

/-- The hosts have the same operations, and the results of their replies are the same. -/
structure SameResults (host host' : Host) : Prop where
  offers : host.offers = host'.offers
  result : ∀ handle earlier operation arguments,
    ((host.capability handle).invoke earlier operation arguments).result =
      ((host'.capability handle).invoke earlier operation arguments).result

theorem tame_sameResults (host : Host) : host.tame.SameResults host where
  offers := rfl
  result _ _ _ _ := Reply.result_tame _

end Host

/-! ## Expressions -/

namespace Host.SameResults

variable {host host' : Host} (h : host.SameResults host') (c : Context) (row : Row)

include h

theorem offers_eq (target : Handle) (operation : String) (arity : Nat) :
    Scope.offers ⟨host, c, row⟩ target operation arity =
      Scope.offers ⟨host', c, row⟩ target operation arity := by
  unfold Scope.offers
  dsimp only
  rw [h.offers]

theorem invoke (target : Handle) (operation : String) (arguments : List Value) :
    Scope.invoke ⟨host, c, row⟩ target operation arguments =
      Scope.invoke ⟨host', c, row⟩ target operation arguments := by
  unfold Scope.invoke
  dsimp only
  apply bind_congr
  intro world
  rw [h.result]

theorem property (v : Value) (name walked : String) :
    Scope.property ⟨host, c, row⟩ v name walked = Scope.property ⟨host', c, row⟩ v name walked := by
  cases v with
  | capability target =>
    -- it is asked for the same operations, and then the same one is called
    simp only [Scope.property, h.offers_eq, h.invoke]
  | _ => rfl

theorem walk (segments : List Segment) : ∀ walked v,
    Scope.walk ⟨host, c, row⟩ walked v segments = Scope.walk ⟨host', c, row⟩ walked v segments := by
  induction segments with
  | nil =>
    intro walked v
    rfl
  | cons segment rest ih =>
    intro walked v
    simp only [Scope.walk, h.property, ih]

omit h

mutual

/-- An expression is the same computation with either host. -/
theorem evaluate (h : host.SameResults host') (c : Context) (row : Row) : ∀ e : Expr,
    Scope.evaluate ⟨host, c, row⟩ e = Scope.evaluate ⟨host', c, row⟩ e
  | .literal _ => rfl
  | .variable _ => rfl
  | .path base segments => by
    rw [Scope.evaluate, Scope.evaluate, evaluate h c row base]
    exact bind_congr fun v => h.walk c row segments _ v
  | .add left right => by
    rw [Scope.evaluate, Scope.evaluate, evaluate h c row left, evaluate h c row right]
  | .compare op left right => by
    rw [Scope.evaluate, Scope.evaluate, evaluate h c row left, evaluate h c row right]
  | .and left right => by
    rw [Scope.evaluate, Scope.evaluate, evaluate h c row left, evaluate h c row right]
  | .or left right => by
    rw [Scope.evaluate, Scope.evaluate, evaluate h c row left, evaluate h c row right]
  | .not operand => by
    rw [Scope.evaluate, Scope.evaluate, evaluate h c row operand]
  | .call target operation arguments => by
    rw [Scope.evaluate, Scope.evaluate, evaluate h c row target, evaluateAll h c row arguments]
    simp only [h.offers_eq, h.invoke]

theorem evaluateAll (h : host.SameResults host') (c : Context) (row : Row) : ∀ es : List Expr,
    Scope.evaluateAll ⟨host, c, row⟩ es = Scope.evaluateAll ⟨host', c, row⟩ es
  | [] => rfl
  | e :: rest => by
    rw [Scope.evaluateAll, Scope.evaluateAll, evaluate h c row e, evaluateAll h c row rest]

end

include h

theorem satisfies (r : Restriction) :
    Scope.satisfies ⟨host, c, row⟩ r = Scope.satisfies ⟨host', c, row⟩ r := by
  induction r with
  | compare op left right => simp only [Scope.satisfies, h.evaluate]
  | and left right ihl ihr => simp only [Scope.satisfies, ihl, ihr]
  | or left right ihl ihr => simp only [Scope.satisfies, ihl, ihr]
  | not operand ih => simp only [Scope.satisfies, ih]
  | holds e => simp only [Scope.satisfies, Scope.evaluateBool, h.evaluate]

theorem projectOnto (projection : Projection) : ∀ object,
    Scope.projectOnto ⟨host, c, row⟩ object projection =
      Scope.projectOnto ⟨host', c, row⟩ object projection := by
  induction projection with
  | nil =>
    intro object
    rfl
  | cons field rest ih =>
    intro object
    simp only [Scope.projectOnto, h.evaluate, ih]

theorem passes (guards : List Expr) :
    JoinGroup.passes ⟨host, c, row⟩ guards = JoinGroup.passes ⟨host', c, row⟩ guards := by
  induction guards with
  | nil => rfl
  | cons guard rest ih => rw [JoinGroup.passes, JoinGroup.passes, h.evaluate, ih]

theorem evaluateRow (joins : List Join) :
    JoinGroup.evaluateRow ⟨host, c, row⟩ joins = JoinGroup.evaluateRow ⟨host', c, row⟩ joins := by
  induction joins with
  | nil => rfl
  | cons join rest ih => rw [JoinGroup.evaluateRow, JoinGroup.evaluateRow, h.evaluate, ih]

end Host.SameResults
end RowQuery
