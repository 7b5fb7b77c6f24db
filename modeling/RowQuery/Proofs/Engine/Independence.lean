import RowQuery.Proofs.Engine.Stages
import RowQuery.Proofs.Evaluation.Coincidence

/-!
# Rows do not depend on each other

A query does to each element of its source what it would do to an array of that element alone, as
long as no expression reads the source by its name. Two things go into it. The stages deal with each
row by itself (`Query.elementwise_fromRows`); and neither the place of an element in the source nor
the other elements can be told from a row (`alongside_through`), because expressions read bindings
and a mention of the source name reads an alias.
-/

set_option autoImplicit false

namespace RowQuery

open Run

/-! ## Names in scope -/

namespace Stage

/-- The names the expressions of the stage mention. -/
def names : Stage → List String
  | .guards g => g.guards.flatMap Expr.names
  | .dispatch g => g.siblings.flatMap fun join => join.expr.names
  | .restriction r => r.names
  | .projection p => p.flatMap fun field => field.2.names

/-- The aliases it adds to every row. -/
def aliases : Stage → List String
  | .dispatch g => g.siblings.map Join.aliasName
  | _ => []

end Stage

/-- With these aliases in scope before the first stage, no stage mentions the name where it is not
an alias. -/
def OnlyAliased (name : String) : List String → List Stage → Prop
  | _, [] => True
  | scope, stage :: rest =>
    (name ∈ scope ∨ name ∉ stage.names) ∧ OnlyAliased name (scope ++ stage.aliases) rest

/-- No expression of the query mentions the source name but as an alias. -/
def Query.SourceUnmentioned (q : Query) : Prop :=
  OnlyAliased q.source.name [q.source.aliasName] q.stages

/-! ## Rows that cannot be told apart -/

/-- The rows have the same bindings, and the names in scope are bound. -/
structure Alike (scope : List String) (row row' : Row) : Prop where
  bindings : row.bindings = row'.bindings
  bound : ∀ name ∈ scope, (row.get? name).isSome

/-- The contexts have the same answer for every other name. -/
def Context.SameBut (c : Context) (name : String) (c' : Context) : Prop :=
  ∀ other, other ≠ name → c.get? other = c'.get? other

theorem Row.get?_bind (row : Row) (aliasName name : String) (v : Value) :
    (row.bind aliasName v).get? name = if name = aliasName then some v else row.get? name := by
  unfold Row.bind Row.get?
  rw [List.reverse_append, List.reverse_singleton, List.singleton_append, List.lookup_cons]
  by_cases h : name = aliasName
  · rw [h, beq_self_eq_true, if_pos rfl]
  · rw [beq_false_of_ne h, if_neg h]

theorem alike_ofElement (i j : Nat) (aliasName : String) (v : Value) :
    Alike [aliasName] (.ofElement i aliasName v) (.ofElement j aliasName v) := by
  refine ⟨rfl, fun name hname => ?_⟩
  cases List.mem_singleton.mp hname
  simp [Row.ofElement, Row.get?]

namespace Alike

variable {scope : List String} {row row' : Row}

theorem get?_eq (h : Alike scope row row') (name : String) : row.get? name = row'.get? name := by
  unfold Row.get?
  rw [h.bindings]

theorem bind (h : Alike scope row row') (aliasName : String) (v : Value) :
    Alike (scope ++ [aliasName]) (row.bind aliasName v) (row'.bind aliasName v) := by
  refine ⟨congrArg (· ++ _) h.bindings, fun name hname => ?_⟩
  rw [Row.get?_bind]
  split
  · rfl
  · next hne =>
    rcases List.mem_append.mp hname with hname | hname
    · exact h.bound name hname
    · exact absurd (List.mem_singleton.mp hname) hne

/-- Names are read alike in rows that are alike, one that the contexts differ in included if it is
in scope. -/
theorem sameNames {host : Host} {c c' : Context} {name : String} {names : List String}
    (h : Alike scope row row') (hc : c.SameBut name c') (hname : name ∈ scope ∨ name ∉ names) :
    Scope.SameNames host c row c' row' names := by
  intro other hother
  unfold Scope.lookup
  dsimp only
  rw [← h.get?_eq]
  split
  · rfl
  · next hnone =>
    have hne : other ≠ name := by
      rintro rfl
      rcases hname with hname | hname
      · have hbound := h.bound other hname
        rw [hnone] at hbound
        cases hbound
      · exact hname hother
    rw [hc other hne]

end Alike

/-! ## One stage -/

namespace JoinGroup

variable {env : Environment} {c c' : Context} {scope : List String}

theorem alongside_evaluateRow (s : Scope) (joins : List Join) :
    Alongside (fun slots slots' => slots = slots' ∧ slots.length = joins.length)
      (evaluateRow s joins) (evaluateRow s joins) := by
  induction joins with
  | nil => exact .pure ⟨rfl, rfl⟩
  | cons join rest ih =>
    refine (Alongside.refl _).bind fun outcome _ heq => ?_
    cases heq
    refine ih.bind fun slots slots' hslots => .pure ⟨congrArg _ hslots.1, ?_⟩
    rw [List.length_cons, List.length_cons, hslots.2]

theorem alongside_evaluateRows (g : JoinGroup) {name : String} (hc : c.SameBut name c')
    (hname : name ∈ scope ∨ name ∉ (Stage.dispatch g).names) {rows rows' : List Row}
    (hrows : List.Forall₂ (Alike scope) rows rows') :
    Alongside (fun slots slots' => slots = slots' ∧ ∀ s ∈ slots, s.length = g.siblings.length)
      (evaluateRows env c g rows) (evaluateRows env c' g rows') := by
  induction hrows with
  | nil => exact .pure ⟨rfl, nofun⟩
  | cons hrow _ ih =>
    have hcongr := Scope.evaluateRow_congr g.siblings
      (hrow.sameNames hc hname : Scope.SameNames env.host c _ c' _ _)
    unfold evaluateRows JoinGroup.scope
    rw [hcongr]
    refine (alongside_evaluateRow _ g.siblings).bind fun slots slots' hslots => ?_
    refine ih.bind fun rest rest' hrest => .pure ⟨?_, ?_⟩
    · rw [hslots.1, hrest.1]
    · exact List.forall_mem_cons.mpr ⟨hslots.2, hrest.2⟩

theorem bindRow_alike (joins : List Join) : ∀ {scope : List String} {row row' : Row}
    {slots : List Slot}, Alike scope row row' → slots.length = joins.length →
    ((bindRow row joins slots).2 = [] ↔ (bindRow row' joins slots).2 = []) ∧
      ((bindRow row joins slots).2 = [] →
        Alike (scope ++ joins.map Join.aliasName) (bindRow row joins slots).1
          (bindRow row' joins slots).1) := by
  induction joins with
  | nil =>
    intro scope row row' slots h _
    refine ⟨Iff.rfl, fun _ => ?_⟩
    rw [List.map_nil, List.append_nil]
    exact h
  | cons join rest ih =>
    intro scope row row' slots h hlength
    cases slots with
    | nil => cases hlength
    | cons slot slots =>
      have hrestLength := Nat.succ.inj hlength
      unfold bindRow
      rcases slot with - | (f | v)
      · exact ⟨iff_of_false (List.cons_ne_nil _ _) (List.cons_ne_nil _ _),
          fun h => absurd h (List.cons_ne_nil _ _)⟩
      · exact ⟨iff_of_false (List.cons_ne_nil _ _) (List.cons_ne_nil _ _),
          fun h => absurd h (List.cons_ne_nil _ _)⟩
      · have hrest := ih (h.bind join.aliasName v) hrestLength
        rw [List.append_assoc] at hrest
        exact hrest

theorem bound_alike (g : JoinGroup) {rows rows' : List Row}
    (hrows : List.Forall₂ (Alike scope) rows rows') : ∀ {slots : List (List Slot)},
    (∀ s ∈ slots, s.length = g.siblings.length) →
    ((g.bound rows slots).flatMap Prod.snd = [] ↔ (g.bound rows' slots).flatMap Prod.snd = []) ∧
      ((g.bound rows slots).flatMap Prod.snd = [] →
        List.Forall₂ (Alike (scope ++ g.siblings.map Join.aliasName))
          ((g.bound rows slots).map Prod.fst) ((g.bound rows' slots).map Prod.fst)) := by
  unfold bound
  induction hrows with
  | nil => exact fun _ => ⟨Iff.rfl, fun _ => .nil⟩
  | cons hrow _ ih =>
    intro slots hslots
    cases slots with
    | nil => exact ⟨Iff.rfl, fun _ => .nil⟩
    | cons s rest =>
      obtain ⟨hs, hrest⟩ := List.forall_mem_cons.mp hslots
      obtain ⟨hnil, halike⟩ := bindRow_alike g.siblings hrow hs
      obtain ⟨hnils, halikes⟩ := ih hrest
      simp only [List.zipWith_cons_cons, List.flatMap_cons, List.map_cons, List.append_eq_nil_iff]
      exact ⟨and_congr hnil hnils, fun h => .cons (halike h.1) (halikes h.2)⟩

/-- Rows that are alike settle alike, if they settle; only the rows named in failures differ. -/
theorem alongside_settle (g : JoinGroup) {rows rows' : List Row}
    (hrows : List.Forall₂ (Alike scope) rows rows') {slots : List (List Slot)}
    (hslots : ∀ s ∈ slots, s.length = g.siblings.length) :
    Alongside (List.Forall₂ (Alike (scope ++ g.siblings.map Join.aliasName)))
      (g.settle rows slots) (g.settle rows' slots) := by
  obtain ⟨hnil, halike⟩ := g.bound_alike hrows hslots
  unfold settle
  by_cases h : (g.bound rows slots).flatMap Prod.snd = []
  · rw [bind_eq_ok h, bind_eq_ok (hnil.mp h)]
    exact .pure (halike h)
  · rw [bind_eq_error h, bind_eq_error fun h' => h (hnil.mpr h')]
    exact .throw _ _

end JoinGroup

namespace Stage

variable {env : Environment} {c c' : Context} {scope : List String} {name : String}

theorem alongside_projectAll (p : Projection) (hc : c.SameBut name c')
    (hname : name ∈ scope ∨ name ∉ (projection p).names) {rows rows' : List Row}
    (hrows : List.Forall₂ (Alike scope) rows rows') :
    Alongside (List.Forall₂ Eq) (Query.projectAll env c p rows)
      (Query.projectAll env c' p rows') := by
  rw [projectAll_eq_sift, projectAll_eq_sift]
  refine Alongside.sift (fun row row' hrow => ?_) hrows
  unfold Scope.project JoinGroup.scope
  rw [Scope.projectOnto_congr p (hrow.sameNames hc hname)]
  refine (Alongside.refl _).bind fun object object' heq => .pure ?_
  exact .some heq

/-- A stage goes through rows that are alike alongside each other. -/
theorem alongside_run (stage : Stage) (hc : c.SameBut name c')
    (hname : name ∈ scope ∨ name ∉ stage.names) {rows rows' : List Row}
    (hrows : List.Forall₂ (Alike scope) rows rows') :
    Alongside (List.Forall₂ (Alike (scope ++ stage.aliases))) (stage.run env c rows)
      (stage.run env c' rows') := by
  cases stage with
  | guards g =>
    rw [run_guards, run_guards, show scope ++ (guards g).aliases = scope from List.append_nil _]
    refine (Alongside.sift (fun row row' hrow => ?_) hrows).evaluated
    exact .keepIf (Scope.passes_congr g.guards (hrow.sameNames hc hname)) hrow
  | dispatch g =>
    refine (g.alongside_evaluateRows hc hname hrows).bind fun slots slots' hslots => ?_
    cases hslots.1
    exact g.alongside_settle hrows hslots.2
  | restriction r =>
    rw [run_restriction, run_restriction,
      show scope ++ (restriction r).aliases = scope from List.append_nil _]
    refine (Alongside.sift (fun row row' hrow => ?_) hrows).evaluated
    exact .keepIf (Scope.satisfies_congr r (hrow.sameNames hc hname)) hrow
  | projection p =>
    refine (alongside_projectAll p hc hname hrows).evaluated.bind fun objects objects' _ => .pure ?_
    rwa [show scope ++ (projection p).aliases = scope from List.append_nil _]

end Stage

section

variable {env : Environment} {c c' : Context} {scope : List String} {name : String}

theorem onlyAliased_append (front back : List Stage) : ∀ scope : List String,
    OnlyAliased name scope (front ++ back) ↔ OnlyAliased name scope front ∧
      OnlyAliased name (scope ++ front.flatMap Stage.aliases) back := by
  induction front with
  | nil =>
    intro scope
    rw [List.flatMap_nil, List.append_nil]
    exact ⟨fun h => ⟨trivial, h⟩, fun h => h.2⟩
  | cons stage rest ih =>
    intro scope
    show _ ∧ OnlyAliased name _ (rest ++ back) ↔ (_ ∧ OnlyAliased name _ rest) ∧ _
    rw [ih, List.flatMap_cons, ← List.append_assoc, and_assoc]

/-- The stages go through rows that are alike alongside each other. -/
theorem alongside_through (stages : List Stage) (hc : c.SameBut name c') :
    ∀ {scope : List String} {rows rows' : List Row}, OnlyAliased name scope stages →
      List.Forall₂ (Alike scope) rows rows' →
      Alongside (List.Forall₂ (Alike (scope ++ stages.flatMap Stage.aliases)))
        (through env c stages rows) (through env c' stages rows') := by
  induction stages with
  | nil =>
    intro scope rows rows' _ hrows
    rw [List.flatMap_nil, List.append_nil]
    exact .pure hrows
  | cons stage rest ih =>
    intro scope rows rows' hnames hrows
    rw [List.flatMap_cons, ← List.append_assoc]
    exact (stage.alongside_run hc hnames.1 hrows).bind fun _ _ hrows => ih hnames.2 hrows

theorem Query.alongside_fromRows (q : Query) (hc : c.SameBut q.source.name c')
    (hq : q.SourceUnmentioned) {rows rows' : List Row}
    (hrows : List.Forall₂ (Alike [q.source.aliasName]) rows rows') :
    Alongside (List.Forall₂ Eq) (q.fromRows env c rows) (q.fromRows env c' rows') := by
  obtain ⟨hrowStages, hprojection, -⟩ := (onlyAliased_append _ _ _).mp hq
  exact (alongside_through q.rowStages hc hrowStages hrows).bind fun _ _ hrows =>
    (Stage.alongside_projectAll q.projection hc hprojection hrows).evaluated

end

/-! ## A bound source -/

namespace Context

variable {c : Context} {name : String}

theorem get?_bind_self (c : Context) (name : String) (v : Value) :
    (c.bind name v).get? name = pure (some v) := by
  have hvalue : (Fields.empty.insert name v).get? name = some v := List.lookup_cons_self
  unfold get? bind push layers getFrom
  dsimp only
  rw [hvalue]

theorem get?_bind_of_ne {other : String} (v : Value) (h : other ≠ name) :
    (c.bind name v).get? other = c.get? other := by
  have hvalue : (Fields.empty.insert name v).get? other = none := by
    show List.lookup other [(name, v)] = none
    rw [List.lookup_cons, beq_false_of_ne h]
    rfl
  unfold get? bind push layers
  rw [getFrom]
  dsimp only
  rw [hvalue]

theorem sameBut_bind (v v' : Value) : (c.bind name v).SameBut name (c.bind name v') := by
  intro other hne
  rw [get?_bind_of_ne v hne, get?_bind_of_ne v' hne]

theorem isPure_bind (hpure : c.IsPure) (v : Value) : (c.bind name v).IsPure := hpure

theorem agrees_bind {w : World} (hw : c.Agrees w) (v : Value) : (c.bind name v).Agrees w := hw

end Context

namespace Query

variable {env : Environment} {c : Context}

theorem bindSource_bind (source : Source) (items : List Value) :
    bindSource source (c.bind source.name (.array items)) =
      pure (items.mapIdx fun i item => .ofElement i source.aliasName item) := by
  unfold bindSource
  rw [Context.get?_bind_self]
  rfl

/-- What the query makes of elements that all stand at the front of their source. -/
def overElements (env : Environment) (c : Context) (q : Query) (items : List Value) :
    Execution (List Object) :=
  q.fromRows env (c.bind q.source.name (.array [])) (items.map (.ofElement 0 q.source.aliasName))

theorem elementwise_overElements (hhost : env.host.IsPure) (hpure : c.IsPure) (q : Query) :
    Elementwise (c.bind q.source.name (.array [])) (q.overElements env c) :=
  (q.elementwise_fromRows hhost (Context.isPure_bind hpure _)).comp_map _

theorem alike_elements (aliasName : String) (items : List Value) :
    List.Forall₂ (Alike [aliasName]) (items.mapIdx fun i item => Row.ofElement i aliasName item)
      (items.map (.ofElement 0 aliasName)) := by
  rw [List.forall₂_iff_get]
  refine ⟨by simp, fun i hi hi' => ?_⟩
  simp only [List.get_eq_getElem, List.getElem_mapIdx, List.getElem_map]
  exact alike_ofElement i 0 aliasName _

/-- A query with its source bound to an array comes to what it makes of the elements. -/
theorem outcome_execute_bind (q : Query) (hhost : env.host.IsPure) (hpure : c.IsPure)
    (hpool : env.poolFailure = none) (hq : q.SourceUnmentioned) (items : List Value) {w : World}
    (hw : c.Agrees w)
    (hruns : q.RunsTasks env (c.bind q.source.name (.array items)) w) (objects : List Object) :
    (outcome (q.execute env (c.bind q.source.name (.array items))) w).1 = .ok objects ↔
      (q.overElements env c items).answer = .ok objects := by
  have hpure' : (c.bind q.source.name (.array items)).IsPure := Context.isPure_bind hpure _
  rw [(q.outcome_execute_eq hhost hpure' hpool (Context.agrees_bind hw _) hruns).1,
    bindSource_bind, pure_bind]
  have halong : Alongside (List.Forall₂ Eq) (q.fromRows env (c.bind q.source.name (.array items)) _)
      (q.overElements env c items) :=
    q.alongside_fromRows (Context.sameBut_bind _ _) hq (alike_elements q.source.aliasName items)
  rw [List.forall₂_eq_eq_eq] at halong
  exact halong.answer_eq_ok_iff

/-- A query is through with an array if it is through with the parts of it, and its results are
those of the parts. Every element has at most one result, and which depends on the element alone. -/
theorem execute_append (q : Query) (hhost : env.host.IsPure) (hpure : c.IsPure)
    (hpool : env.poolFailure = none) (hq : q.SourceUnmentioned) :
    let bound (items : List Value) : Context := c.bind q.source.name (.array items)
    let result (items : List Value) (w : World) := (outcome (q.execute env (bound items)) w).1
    (∀ xs ys w w₁ w₂, c.Agrees w → c.Agrees w₁ → c.Agrees w₂ →
      q.RunsTasks env (bound (xs ++ ys)) w → q.RunsTasks env (bound xs) w₁ →
      q.RunsTasks env (bound ys) w₂ → ∀ objects, result (xs ++ ys) w = .ok objects ↔
        ∃ front back, result xs w₁ = .ok front ∧ result ys w₂ = .ok back ∧
          objects = front ++ back) ∧
    ∃ part : Value → Option (Option Object), ∀ items w, c.Agrees w →
      q.RunsTasks env (bound items) w → ∀ objects, result items w = .ok objects ↔
        ∃ parts, List.Forall₂ (fun item p => part item = some p) items parts ∧
          objects = parts.reduceOption := by
  intro bound result
  have heach := q.elementwise_overElements hhost hpure
  have hresult : ∀ items w, c.Agrees w → q.RunsTasks env (bound items) w → ∀ objects,
      result items w = .ok objects ↔ (q.overElements env c items).answer = .ok objects :=
    fun items w hw hruns => q.outcome_execute_bind hhost hpure hpool hq items hw hruns
  refine ⟨?_, ?_⟩
  · intro xs ys w w₁ w₂ hw hw₁ hw₂ hruns hruns₁ hruns₂ objects
    simp only [hresult (xs ++ ys) w hw hruns, hresult xs w₁ hw₁ hruns₁, hresult ys w₂ hw₂ hruns₂]
    exact heach.append xs ys objects
  · obtain ⟨part, hpart⟩ := heach.exists_part
    refine ⟨part, fun items w hw hruns objects => ?_⟩
    rw [hresult items w hw hruns]
    exact hpart items objects

/-- A join under the source's own name, which a restriction then reads; one of the elements does not
meet it. -/
theorem execute_append_aliased :
    let q : Query := {
      source := ⟨"items", "x"⟩
      groups := [⟨[⟨"items", .call (.variable "api") "echo" [.variable "x"], none,
        .async (some 1) none⟩]⟩]
      restriction := some (.compare .notEqual (.variable "items") (.literal (.string "fig")))
      projection := [("name", .variable "items")] }
    let env : Environment := {
      host := { capability := fun _ =>
        ⟨fun _ _ => true, fun _ _ values => .returned (values.headD .null)⟩ } }
    let c : Context := { innermost := { values := ⟨[("api", .capability ⟨0, "api"⟩)]⟩ } }
    let result (items : List Value) :=
      (outcome (q.execute env (c.bind "items" (.array items))) {}).1
    q.SourceUnmentioned ∧ ∀ objects,
      result [.string "pear", .string "fig", .string "plum"] = .ok objects ↔
        ∃ front back, result [.string "pear"] = .ok front ∧
          result [.string "fig", .string "plum"] = .ok back ∧ objects = front ++ back := by
  intro q env c result
  have hhost : env.host.IsPure := ⟨fun _ _ => rfl, fun _ _ _ _ => rfl⟩
  have hpure : c.IsPure := fun _ h => by cases h
  have hw : c.Agrees {} := Context.agrees_of_loaded_nil rfl
  have hq : q.SourceUnmentioned := by
    refine ⟨.inr ?_, .inr ?_, .inl ?_, .inl ?_, trivial⟩ <;> decide
  have hruns : ∀ items ∈ [[Value.string "pear", .string "fig", .string "plum"],
      [.string "pear"], [.string "fig", .string "plum"]],
      q.RunsTasks env (c.bind "items" (.array items)) {} := by
    intro items hitems rows w hrows
    rw [bindSource_bind q.source] at hrows
    cases hrows
    refine ⟨fun kept w hguards => ?_, fun _ _ _ => trivial⟩
    simp only [List.mem_cons, List.not_mem_nil, or_false] at hitems
    rcases hitems with rfl | rfl | rfl
    · cases (rfl : outcome _ _ = (_, _)).symm.trans hguards
      decide +kernel
    · cases (rfl : outcome _ _ = (_, _)).symm.trans hguards
      decide +kernel
    · cases (rfl : outcome _ _ = (_, _)).symm.trans hguards
      decide +kernel
  have happend := (execute_append q hhost hpure rfl hq).1 [.string "pear"]
    [.string "fig", .string "plum"] {} {} {} hw hw hw (hruns _ (by simp)) (hruns _ (by simp))
    (hruns _ (by simp))
  exact ⟨hq, happend⟩

end Query
end RowQuery
