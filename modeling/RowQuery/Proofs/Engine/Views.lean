import RowQuery.Proofs.Engine.Binding

/-!
# What can be told of a row

A query looks at the bindings of a row through names alone, and at its place when it reports a
failure (`Row.view`). Rows with the same view can stand for each other: every stage goes through
them as the same computation, up to rows that have the same view again (`Stage.seenAlike_run`), and
what the query makes of them in the end is the same (`Query.fromRows_of_views`).

That two runs are the same up to what `f` leaves out is said by an equation, `f <$> m = f <$> m'`; a
step that does not look at what `f` leaves out can follow either (`bind_of_map_eq`).
-/

set_option autoImplicit false

namespace RowQuery

open Run

/-! ## The same up to a function -/

/-- What follows two computations that are the same up to `f`, if it does not tell apart what `f`
does not. -/
theorem bind_of_map_eq {m : Type → Type} [Monad m] [LawfulMonad m] {α β γ : Type} {f : α → γ}
    {x x' : m α} (h : f <$> x = f <$> x') {k k' : α → m β} (hk : ∀ a a', f a = f a' → k a = k' a') :
    x >>= k = x' >>= k' := by
  have hfactors : Function.FactorsThrough k f := fun a a' hf =>
    (hk a a' hf).trans (hk a' a' rfl).symm
  obtain ⟨next, hnext⟩ : ∃ next : γ → m β, ∀ a, next (f a) = k a :=
    ⟨Function.extend f k fun _ => x >>= k, hfactors.extend_apply _⟩
  calc x >>= k = f <$> x >>= next := by
        rw [bind_map_left]
        exact bind_congr fun a => (hnext a).symm
    _ = f <$> x' >>= next := by rw [h]
    _ = x' >>= k' := by
        rw [bind_map_left]
        exact bind_congr fun a => (hnext a).trans (hk a a rfl)

theorem Run.evaluated_map {α β : Type} (f : α → β) (e : Evaluation α) :
    evaluated (f <$> e) = f <$> evaluated e := by
  rw [map_eq_pure_bind, map_eq_pure_bind, evaluated_bind]
  rfl

/-! ## Views -/

namespace Row

/-- Where the row stands, and what every name is bound to in it. -/
def view (row : Row) : Nat × (String → Option Value) := (row.index, row.get?)

variable {row row' : Row}

theorem get?_of_view (h : row.view = row'.view) (name : String) :
    row.get? name = row'.get? name := congrFun (Prod.mk.inj h).2 name

theorem view_bind (h : row.view = row'.view) (aliasName : String) (v : Value) :
    (row.bind aliasName v).view = (row'.bind aliasName v).view := by
  refine Prod.ext (Prod.mk.inj h).1 (funext fun name => ?_)
  show (row.bind aliasName v).get? name = (row'.bind aliasName v).get? name
  rw [get?_bind, get?_bind, get?_of_view h]

theorem sameNames_of_view (host : Host) (c : Context) (h : row.view = row'.view)
    (names : List String) : Scope.SameNames host c row c row' names := by
  intro name _
  unfold Scope.lookup
  dsimp only
  rw [get?_of_view h]

end Row

/-- The lists have the same views, row for row. -/
def SameViews (rows rows' : List Row) : Prop := rows.map Row.view = rows'.map Row.view

/-- The runs come to rows with the same views, or stop alike, with the same calls. -/
def SeenAlike {ε : Type} (m m' : Run ε (List Row)) : Prop :=
  List.map Row.view <$> m = List.map Row.view <$> m'

theorem sameViews_iff_forall₂ {rows rows' : List Row} :
    SameViews rows rows' ↔ List.Forall₂ (fun row row' => row.view = row'.view) rows rows' := by
  unfold SameViews
  rw [← List.forall₂_eq_eq_eq, List.forall₂_map_left_iff, List.forall₂_map_right_iff]

namespace SeenAlike

variable {ε α : Type} {m m' : Run ε (List Row)}

theorem pure {rows rows' : List Row} (h : SameViews rows rows') :
    SeenAlike (pure rows : Run ε (List Row)) (pure rows') :=
  congrArg (Pure.pure : List _ → Run ε (List _)) h

theorem refl (m : Run ε (List Row)) : SeenAlike m m := rfl

theorem bind (h : SeenAlike m m') {k k' : List Row → Run ε (List Row)}
    (hk : ∀ rows rows', SameViews rows rows' → SeenAlike (k rows) (k' rows')) :
    SeenAlike (m >>= k) (m' >>= k') := by
  unfold SeenAlike
  rw [map_bind, map_bind]
  exact bind_of_map_eq h hk

theorem after (m : Run ε α) {k k' : α → Run ε (List Row)} (hk : ∀ a, SeenAlike (k a) (k' a)) :
    SeenAlike (m >>= k) (m >>= k') := by
  unfold SeenAlike
  rw [map_bind, map_bind]
  exact bind_congr hk

theorem evaluated {m m' : Evaluation (List Row)} (h : SeenAlike m m') :
    SeenAlike (Run.evaluated m) (Run.evaluated m') := by
  unfold SeenAlike at h ⊢
  rw [← Run.evaluated_map, ← Run.evaluated_map, h]

end SeenAlike

/-! ## The stages -/

section

variable {env : Environment} {c : Context} {rows rows' : List Row}

/-- A test that only looks at views keeps the same rows. -/
theorem seenAlike_sift {test : Row → Evaluation Bool}
    (htest : ∀ row row' : Row, row.view = row'.view → test row = test row')
    (h : SameViews rows rows') :
    SeenAlike (sift (keepIf test) rows) (sift (keepIf test) rows') := by
  rw [sameViews_iff_forall₂] at h
  induction h with
  | nil => exact .pure rfl
  | cons hrow _ ih =>
    rw [sift_keepIf_cons, sift_keepIf_cons, htest _ _ hrow]
    refine .after _ fun passed => ih.bind fun kept kept' hkept => .pure ?_
    split
    · exact congrArg₂ List.cons hrow hkept
    · exact hkept

namespace JoinGroup

theorem evaluateRows_of_views (g : JoinGroup) (h : SameViews rows rows') :
    evaluateRows env c g rows = evaluateRows env c g rows' := by
  rw [sameViews_iff_forall₂] at h
  induction h with
  | nil => rfl
  | cons hrow _ ih =>
    have hslots := Scope.evaluateRow_congr g.siblings (Row.sameNames_of_view env.host c hrow _)
    rw [evaluateRows, evaluateRows, ih]
    unfold scope
    rw [hslots]

theorem view_bindSlot {row row' : Row} (h : row.view = row'.view) (join : Join) (slot : Slot) :
    (bindSlot row join slot).view = (bindSlot row' join slot).view := by
  rcases slot with - | (f | v)
  · exact h
  · exact h
  · exact Row.view_bind h join.aliasName v

theorem view_bindRow (joins : List Join) : ∀ {row row' : Row} (slots : List Slot),
    row.view = row'.view →
      (bindRow row joins slots).1.view = (bindRow row' joins slots).1.view := by
  induction joins with
  | nil => exact fun _ h => h
  | cons join rest ih =>
    intro row row' slots h
    cases slots with
    | nil => exact h
    | cons slot slots =>
      rw [bindRow_cons, bindRow_cons]
      exact ih slots (view_bindSlot h join slot)

/-- Rows with the same views are bound to rows with the same views, with the same failures. -/
theorem bound_of_views (g : JoinGroup) (h : SameViews rows rows') : ∀ slots : List (List Slot),
    SameViews ((g.bound rows slots).map Prod.fst) ((g.bound rows' slots).map Prod.fst) ∧
      (g.bound rows slots).flatMap Prod.snd = (g.bound rows' slots).flatMap Prod.snd := by
  rw [sameViews_iff_forall₂] at h
  unfold bound
  induction h with
  | nil => exact fun _ => ⟨rfl, rfl⟩
  | cons hrow _ ih =>
    intro slots
    cases slots with
    | nil => exact ⟨rfl, rfl⟩
    | cons s rest =>
      obtain ⟨hviews, hfailures⟩ := ih rest
      rw [List.zipWith_cons_cons, List.zipWith_cons_cons, List.flatMap_cons, List.flatMap_cons,
        hfailures, bindRow_failures, bindRow_failures, (Prod.mk.inj hrow).1]
      exact ⟨congrArg₂ List.cons (view_bindRow g.siblings s hrow) hviews, rfl⟩

theorem seenAlike_settle (g : JoinGroup) (h : SameViews rows rows') (slots : List (List Slot)) :
    SeenAlike (g.settle rows slots) (g.settle rows' slots) := by
  obtain ⟨hviews, hfailures⟩ := g.bound_of_views h slots
  unfold settle
  by_cases hnil : (g.bound rows slots).flatMap Prod.snd = []
  · rw [bind_eq_ok hnil, bind_eq_ok (hfailures.symm.trans hnil)]
    exact .pure hviews
  · rw [bind_eq_error hnil, bind_eq_error (hfailures.symm.trans_ne hnil), hfailures]
    exact .refl _

end JoinGroup

theorem projectAll_of_views (p : Projection) (h : SameViews rows rows') :
    Query.projectAll env c p rows = Query.projectAll env c p rows' := by
  rw [sameViews_iff_forall₂] at h
  induction h with
  | nil => rfl
  | cons hrow _ ih =>
    have hobject := Scope.projectOnto_congr p (Row.sameNames_of_view env.host c hrow _)
    rw [Query.projectAll, Query.projectAll, ih]
    unfold Scope.project JoinGroup.scope
    rw [hobject]

/-- Every stage goes through rows with the same views as the same computation. -/
theorem Stage.seenAlike_run (stage : Stage) (h : SameViews rows rows') :
    SeenAlike (stage.run env c rows) (stage.run env c rows') := by
  cases stage with
  | guards g =>
    rw [run_guards]
    refine (seenAlike_sift (fun row row' hrow => ?_) h).evaluated
    exact Scope.passes_congr g.guards (Row.sameNames_of_view env.host c hrow _)
  | dispatch g =>
    show SeenAlike (JoinGroup.evaluateRows env c g rows >>= _)
      (JoinGroup.evaluateRows env c g rows' >>= _)
    rw [g.evaluateRows_of_views h]
    exact .after _ fun slots => g.seenAlike_settle h slots
  | restriction r =>
    rw [run_restriction]
    refine (seenAlike_sift (fun row row' hrow => ?_) h).evaluated
    exact Scope.satisfies_congr r (Row.sameNames_of_view env.host c hrow _)
  | projection p =>
    show SeenAlike (Run.evaluated (Query.projectAll env c p rows) >>= _)
      (Run.evaluated (Query.projectAll env c p rows') >>= _)
    rw [projectAll_of_views p h]
    exact .after _ fun _ => .pure h

theorem seenAlike_through (stages : List Stage) : ∀ {rows rows' : List Row}, SameViews rows rows' →
    SeenAlike (through env c stages rows) (through env c stages rows') := by
  induction stages with
  | nil => exact fun h => .pure h
  | cons stage rest ih => exact fun h => (stage.seenAlike_run h).bind fun _ _ h => ih h

/-- A query makes the same of rows with the same views. -/
theorem Query.fromRows_of_views (q : Query) (h : SameViews rows rows') :
    q.fromRows env c rows = q.fromRows env c rows' :=
  bind_of_map_eq (seenAlike_through q.rowStages h) fun _ _ h =>
    congrArg Run.evaluated (projectAll_of_views q.projection h)

end
end RowQuery
