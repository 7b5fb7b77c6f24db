import RowQuery.Proofs.Engine.FirstFailure
import RowQuery.Proofs.Engine.Merging
import RowQuery.Proofs.Engine.Views

/-!
# The order of siblings

The siblings of a group can be written in any order (`Query.execute_perm`): if their aliases are
distinct and no guard fails, the query ends alike, with the same objects or the same error. Guards
that have values let a row pass in any order or in none. The rows a group leaves differ in the order
of their bindings, but their views are the same, and more than the view of a row is never looked at.
Failures are listed in another order, but reported in the same (`Reports.unique`), since those of
one row are told apart by their aliases.
-/

set_option autoImplicit false

namespace RowQuery

open Run

/-! ## The order of reporting is determined -/

namespace RowFailure

theorem le_refl (a : RowFailure) : a.le a := le_iff.mpr (.inr ⟨rfl, String.le_refl _⟩)

theorem isOf_of_le_of_le {a b : RowFailure} (hab : a.le b) (hba : b.le a) :
    a.row = b.row ∧ a.aliasName = b.aliasName := by
  rw [le_iff] at hab hba
  rcases hab with hab | ⟨hrow, hab⟩
  · rcases hba with hba | ⟨hrow, -⟩
    · exact absurd hab (Nat.lt_asymm hba)
    · exact absurd hrow (Nat.ne_of_gt hab)
  · rcases hba with hba | ⟨-, hba⟩
    · exact absurd hrow (Nat.ne_of_gt hba)
    · exact ⟨hrow, String.le_antisymm hab hba⟩

/-- Lists in the order of reporting are the same if they have the same failures of every row and
alias in the same order. -/
theorem eq_of_sorted {l l' : List RowFailure} (hsorted : l.Pairwise fun a b => a.le b)
    (hsorted' : l'.Pairwise fun a b => a.le b) (hperm : l.Perm l')
    (hties : ∀ row aliasName, l.filter (·.isOf row aliasName) = l'.filter (·.isOf row aliasName)) :
    l = l' := by
  induction l generalizing l' with
  | nil => exact (List.nil_perm.mp hperm).symm
  | cons a rest ih =>
    cases l' with
    | nil => exact absurd hperm.length_eq (Nat.succ_ne_zero _)
    | cons b rest' =>
      obtain ⟨hfirst, hrest⟩ := List.pairwise_cons.mp hsorted
      obtain ⟨hfirst', hrest'⟩ := List.pairwise_cons.mp hsorted'
      have hab : a.le b := by
        rcases List.mem_cons.mp (hperm.mem_iff.mpr List.mem_cons_self) with rfl | hb
        · exact le_refl b
        · exact hfirst b hb
      have hba : b.le a := by
        rcases List.mem_cons.mp (hperm.mem_iff.mp List.mem_cons_self) with rfl | ha
        · exact le_refl a
        · exact hfirst' a ha
      obtain ⟨hrow, halias⟩ := isOf_of_le_of_le hab hba
      -- both heads are the first failure of their row and alias
      have ha : a.isOf a.row a.aliasName := by simp [isOf]
      have hb : b.isOf a.row a.aliasName := by simp [isOf, hrow, halias]
      have heads := hties a.row a.aliasName
      rw [List.filter_cons_of_pos ha, List.filter_cons_of_pos hb] at heads
      obtain ⟨rfl, -⟩ := List.cons.inj heads
      refine congrArg _ (ih hrest hrest' hperm.cons_inv fun row aliasName => ?_)
      have h := hties row aliasName
      rw [List.filter_cons, List.filter_cons] at h
      split at h
      · exact (List.cons.inj h).2
      · exact h

end RowFailure

/-- There is one way to report an account. -/
theorem Reports.unique {failures failures' account : List RowFailure}
    (h : Reports failures account) (h' : Reports failures' account) : failures = failures' :=
  RowFailure.eq_of_sorted h.sorted h'.sorted (h.perm.trans h'.perm.symm) fun row aliasName =>
    (h.ties row aliasName).trans (h'.ties row aliasName).symm

/-! ## One row -/

namespace JoinGroup

variable {env : Environment} {c : Context} {g g' : JoinGroup}

theorem guards_perm (hperm : g.siblings.Perm g'.siblings) : g.guards.Perm g'.guards :=
  hperm.filterMap _

section

variable {s : Scope} (hhost : s.host.IsPure) (hpure : s.context.IsPure)

include hhost hpure

/-- Guards that all have values let a row pass if all of them admit it. -/
theorem exists_answer_passes {guards : List Expr}
    (h : ∀ guard ∈ guards, ∃ v, (s.evaluate guard).answer = .ok v) :
    ∃ passed, (passes s guards).answer = .ok passed ∧
      (passed = true ↔ ∀ guard ∈ guards, ∃ v, (s.evaluate guard).answer = .ok v ∧ v.Admits) := by
  induction guards with
  | nil => exact ⟨true, rfl, iff_of_true rfl (List.forall_mem_nil _)⟩
  | cons guard rest ih =>
    obtain ⟨⟨v, hv⟩, hrest⟩ := List.forall_mem_cons.mp h
    obtain ⟨passed, hpassed, hiff⟩ := ih hrest
    rw [answer_passes_cons hhost hpure, hv]
    simp only [List.forall_mem_cons, hv, Except.ok.injEq, exists_eq_left']
    by_cases hadmits : v.Admits
    · exact ⟨passed, (if_pos hadmits).trans hpassed, hiff.trans (and_iff_right hadmits).symm⟩
    · exact ⟨false, if_neg hadmits, iff_of_false Bool.false_ne_true fun h => hadmits h.1⟩

/-- Guards that all have values can stand in any order. -/
theorem answer_passes_perm {guards guards' : List Expr} (hperm : guards.Perm guards')
    (h : ∀ guard ∈ guards, ∃ v, (s.evaluate guard).answer = .ok v) :
    (passes s guards).answer = (passes s guards').answer := by
  obtain ⟨passed, hpassed, hiff⟩ := exists_answer_passes hhost hpure h
  obtain ⟨passed', hpassed', hiff'⟩ := exists_answer_passes hhost hpure
    fun guard hguard => h guard (hperm.mem_iff.mpr hguard)
  have hsame : passed = true ↔ passed' = true := by
    rw [hiff, hiff']
    exact forall_congr' fun guard => imp_congr_left hperm.mem_iff
  rw [hpassed, hpassed', Bool.eq_iff_iff.mpr hsame]

end

theorem slotFailure_aliasName {index : Nat} {join : Join} {slot : Slot} {failure : RowFailure}
    (h : slotFailure index join slot = some failure) : failure.aliasName = join.aliasName := by
  rcases slot with - | (f | v) <;> cases h <;> rfl

/-- The failures of a row are the same, whatever the order of the siblings. -/
theorem sort_settledRow_perm (m : Meaning env.host c) (hperm : g.siblings.Perm g'.siblings)
    (hnodup : g.aliases.Nodup) (row : Row) :
    RowFailure.sort (g.settledRow m row).2 = RowFailure.sort (g'.settledRow m row).2 := by
  have hreports := reports_sort (g.settledRow m row).2
  have hreports' := reports_sort (g'.settledRow m row).2
  have hfailures : (g.settledRow m row).2.Perm (g'.settledRow m row).2 := by
    rw [settledRow_failures, settledRow_failures]
    exact hperm.filterMap _
  refine List.Perm.eq_of_pairwise ?_ hreports.sorted hreports'.sorted
    (hreports.perm.trans (hfailures.trans hreports'.perm.symm))
  intro a b ha hb hab hba
  have ha := hreports.perm.mem_iff.mp ha
  have hb := hfailures.mem_iff.mpr (hreports'.perm.mem_iff.mp hb)
  rw [settledRow_failures] at ha hb
  obtain ⟨join, hjoin, ha⟩ := List.mem_filterMap.mp ha
  obtain ⟨join', hjoin', hb⟩ := List.mem_filterMap.mp hb
  -- one sibling has the alias, and it has one failure
  have halias : join.aliasName = join'.aliasName := by
    rw [← slotFailure_aliasName ha, ← slotFailure_aliasName hb]
    exact (RowFailure.isOf_of_le_of_le hab hba).2
  cases List.inj_on_of_nodup_map hnodup hjoin hjoin' halias
  exact Option.some.inj (ha.symm.trans hb)

/-- A row is bound to the same values, whatever the order of the siblings. -/
theorem view_settledRow_perm (m : Meaning env.host c) (hperm : g.siblings.Perm g'.siblings)
    (hnodup : g.aliases.Nodup) {row : Row} (hsettled : (g.settledRow m row).2 = []) :
    (g.settledRow m row).1.view = (g'.settledRow m row).1.view := by
  have hnodup' : g'.aliases.Nodup := (hperm.map _).nodup_iff.mp hnodup
  refine Prod.ext ?_ (funext fun name => ?_)
  · exact (index_bindRow g.siblings row _).trans (index_bindRow g'.siblings row _).symm
  · show (g.settledRow m row).1.get? name = (g'.settledRow m row).1.get? name
    by_cases hname : name ∈ g.aliases
    · obtain ⟨join, hjoin, rfl⟩ := List.mem_map.mp hname
      obtain ⟨v, hv⟩ := (settledRow_failures_eq_nil_iff m g row).mp hsettled join hjoin
      have hslot : some (m.value row join.expr) = some (.ok v) := congrArg some hv
      exact (get?_bindRow_of_mem hslot g.siblings row hnodup hjoin).trans
        (get?_bindRow_of_mem hslot g'.siblings row hnodup' (hperm.mem_iff.mp hjoin)).symm
    · have hname' : name ∉ g'.aliases := fun h => hname ((hperm.map _).mem_iff.mpr h)
      exact (get?_bindRow g.siblings row _ hname).trans
        (get?_bindRow g'.siblings row _ hname').symm

/-! ## One group -/

section

variable (hhost : env.host.IsPure) (hpure : c.IsPure) (hperm : g.siblings.Perm g'.siblings)

include hhost hpure hperm

theorem answer_guards_perm {rows : List Row} (hguards : ∀ row ∈ rows, ∀ guard ∈ g.guards,
      ∃ v, ((scope env c row).evaluate guard).answer = .ok v) :
    ((Stage.guards g).run env c rows).answer = ((Stage.guards g').run env c rows).answer := by
  have hsteady : ∀ guards row, IsSteady c (passes (scope env c row) guards) := fun guards row =>
    isSteady_passes (s := scope env c row) hhost hpure guards
  rw [Stage.run_guards, Stage.run_guards, answer_evaluated, answer_evaluated,
    answer_sift_keepIf_congr (hsteady g.guards) (hsteady g'.guards) fun row hrow =>
      answer_passes_perm hhost hpure (guards_perm hperm) (hguards row hrow)]

/-- Siblings in another order settle rows with the same views, or report the same. -/
theorem answer_dispatch_perm (hnodup : g.aliases.Nodup) (rows : List Row) :
    List.map Row.view <$> ((Stage.dispatch g).run env c rows).answer =
      List.map Row.view <$> ((Stage.dispatch g').run env c rows).answer := by
  obtain ⟨m⟩ := exists_meaning hhost hpure
  have hnil : ∀ row, (g.settledRow m row).2 = [] ↔ (g'.settledRow m row).2 = [] := by
    intro row
    rw [settledRow_failures_eq_nil_iff, settledRow_failures_eq_nil_iff]
    exact forall_congr' fun join => imp_congr_left hperm.mem_iff
  by_cases hsettled : ∀ row ∈ rows, (g.settledRow m row).2 = []
  · rw [g.answer_dispatch_of_settled m hsettled,
      g'.answer_dispatch_of_settled m fun row hrow => (hnil row).mp (hsettled row hrow)]
    refine congrArg Except.ok ?_
    rw [List.map_map, List.map_map]
    exact List.map_congr_left fun row hrow =>
      view_settledRow_perm m hperm hnodup (hsettled row hrow)
  · rw [g.answer_dispatch_of_failed m hsettled, g'.answer_dispatch_of_failed m fun h =>
      hsettled fun row hrow => (hnil row).mpr (h row hrow)]
    have hreports := reports_sort_flatMap rows fun row => (g.settledRow m row).2
    have hreports' := reports_sort_flatMap rows fun row => (g'.settledRow m row).2
    simp only [sort_settledRow_perm m hperm hnodup] at hreports
    exact congrArg (fun failures => Except.error (Halt.error (.join failures)))
      (hreports.unique hreports')

theorem answer_through_perm (hnodup : g.aliases.Nodup) {rows : List Row}
    (hguards : ∀ row ∈ rows, ∀ guard ∈ g.guards,
      ∃ v, ((scope env c row).evaluate guard).answer = .ok v) :
    List.map Row.view <$> (through env c (groupStages [g]) rows).answer =
      List.map Row.view <$> (through env c (groupStages [g']) rows).answer := by
  have hfirm : ∀ (stage : Stage) rows, Firm c (stage.run env c rows) := fun stage =>
    (stage.elementwise hhost hpure).firm
  rw [through_group, through_group, (hfirm _ rows).answer_bind (hfirm _),
    (hfirm _ rows).answer_bind (hfirm _), answer_guards_perm hhost hpure hperm hguards]
  cases ((Stage.guards g').run env c rows).answer with
  | ok kept => exact answer_dispatch_perm hhost hpure hperm hnodup kept
  | error e => rfl

end

end JoinGroup

/-! ## A query -/

namespace Query

variable {env : Environment} {c : Context}

/-- The rows that a group is started with behind others. -/
def rowsBehind (env : Environment) (c : Context) (source : Source) (before : List JoinGroup) :
    Execution (List Row) := do
  let rows ← bindSource source c
  executeGroups env c before rows

/-- Run from this world behind other groups, the group has a value for each of its guards on every
row. -/
def GuardsAnswer (env : Environment) (c : Context) (source : Source) (before : List JoinGroup)
    (g : JoinGroup) (w : World) : Prop :=
  ∀ rows w₁, outcome (rowsBehind env c source before) w = (.ok rows, w₁) →
    ∀ row ∈ rows, ∀ guard ∈ g.guards,
      ∃ v w₂, outcome ((JoinGroup.scope env c row).evaluate guard) w₁ = (.ok v, w₂)

theorem GroupsRunTasks.front {before after : List JoinGroup} : ∀ {rows : List Row} {w : World},
    GroupsRunTasks env c (before ++ after) rows w → GroupsRunTasks env c before rows w := by
  induction before with
  | nil => exact fun _ => trivial
  | cons g rest ih => exact fun h => ⟨h.1, fun rows' w' hout => ih (h.2 rows' w' hout)⟩

section

variable (hhost : env.host.IsPure) (hpure : c.IsPure) (hpool : env.poolFailure = none)

include hhost hpure hpool

/-- The rows that a group is started with are those of the stages before it. -/
theorem exists_outcome_rowsBehind (q : Query) {before after : List JoinGroup} {w : World}
    (hw : c.Agrees w) (hruns : (q.withGroups (before ++ after)).RunsTasks env c w)
    {rows : List Row}
    (hrows : (bindSource q.source c >>= through env c (groupStages before)).answer = .ok rows) :
    ∃ w₁, outcome (rowsBehind env c q.source before) w = (.ok rows, w₁) ∧ c.Agrees w₁ := by
  obtain ⟨r, calls, hsteady, hfollows⟩ := (follows_bindSource hpure q.source).bind fun rows =>
    follows_executeGroups hhost hpure hpool before rows
  have hstages : executeGroups env c (before.map JoinGroup.sequential) =
      through env c (groupStages before) := funext (executeGroups_sequential before)
  rw [hstages] at hsteady
  obtain ⟨made, -, w₁, hout, hw₁, -⟩ := hfollows w hw ⟨trivial, fun rows w' hsource =>
    (hruns rows w' hsource).front⟩
  cases hsteady.answer_eq.symm.trans hrows
  exact ⟨w₁, hout, hw₁⟩

end

/-- The siblings of a group with distinct aliases can be written in any order: if none of its guards
fails, the query ends alike. -/
theorem execute_perm (q : Query) (before : List JoinGroup) (g g' : JoinGroup)
    (after : List JoinGroup) {w w' : World} (hhost : env.host.IsPure) (hpure : c.IsPure)
    (hpool : env.poolFailure = none) (hperm : g.siblings.Perm g'.siblings)
    (hnodup : g.aliases.Nodup) (hguards : GuardsAnswer env c q.source before g w)
    (hw : c.Agrees w) (hw' : c.Agrees w')
    (hruns : (q.withGroups (before ++ g :: after)).RunsTasks env c w)
    (hruns' : (q.withGroups (before ++ g' :: after)).RunsTasks env c w') :
    (outcome ((q.withGroups (before ++ g :: after)).execute env c) w).1 =
      (outcome ((q.withGroups (before ++ g' :: after)).execute env c) w').1 := by
  have hgroups : ∀ groups rows, Firm c (through env c (groupStages groups) rows) :=
    fun groups => (elementwise_through hhost hpure (groupStages groups)).firm
  have hrest : ∀ groups rows, Firm c ((q.withGroups groups).fromRows env c rows) :=
    fun groups => ((q.withGroups groups).elementwise_fromRows hhost hpure).firm
  obtain ⟨r, hsource⟩ := exists_steady_bindSource hpure q.source
  have hbefore : Firm c (bindSource q.source c >>= through env c (groupStages before)) :=
    hsource.firm.bind (hgroups before)
  have hsplit : ∀ g : JoinGroup, (bindSource q.source c >>=
      (q.withGroups (before ++ g :: after)).fromRows env c).answer =
        (bindSource q.source c >>= through env c (groupStages before)).answer >>= fun rows =>
          ((through env c (groupStages [g]) rows).answer >>= fun rows =>
            ((q.withGroups after).fromRows env c rows).answer) := by
    intro g
    have hrun : bindSource q.source c >>= (q.withGroups (before ++ g :: after)).fromRows env c =
        (bindSource q.source c >>= through env c (groupStages before)) >>=
          (q.withGroups (g :: after)).fromRows env c := by
      rw [bind_assoc]
      exact bind_congr fun rows => q.fromRows_withGroups before (g :: after) rows
    rw [hrun, hbefore.answer_bind (hrest (g :: after))]
    refine bind_congr fun rows => ?_
    rw [show g :: after = [g] ++ after from rfl, fromRows_withGroups]
    exact (hgroups [g] rows).answer_bind (hrest after)
  rw [(outcome_execute_eq hhost hpure hpool _ hw hruns).1,
    (outcome_execute_eq hhost hpure hpool _ hw' hruns').1]
  refine (hsplit g).trans (Eq.trans ?_ (hsplit g').symm)
  cases hmid : (bindSource q.source c >>= through env c (groupStages before)).answer with
  | error e => rfl
  | ok rows =>
    obtain ⟨w₁, hout, hw₁⟩ := exists_outcome_rowsBehind hhost hpure hpool q hw hruns hmid
    have hanswers : ∀ row ∈ rows, ∀ guard ∈ g.guards,
        ∃ v, ((JoinGroup.scope env c row).evaluate guard).answer = .ok v := by
      intro row hrow guard hguard
      obtain ⟨v, w₂, hv⟩ := hguards rows w₁ hout row hrow guard hguard
      have hfirm := Scope.isSteady_evaluate (s := JoinGroup.scope env c row) hhost hpure guard
      obtain ⟨w₃, hanswer, -, -⟩ := hfirm.firm w₁ hw₁
      exact ⟨v, (Prod.mk.inj (hanswer.symm.trans hv)).1⟩
    have hviews := JoinGroup.answer_through_perm hhost hpure hperm hnodup hanswers
    -- behind the group the rows can no longer be told apart
    exact bind_of_map_eq hviews fun rows rows' h =>
      congrArg Run.answer ((q.withGroups after).fromRows_of_views h)

/-- Two of three siblings fail, in the course of the query and in a task, behind a guard that drops
one of the rows; turned round, the group reports the same. -/
theorem execute_perm_failing :
    let before : List JoinGroup := [⟨[⟨"p", .variable "x", none, .sync⟩]⟩]
    let b : Join := ⟨"b", .add (.literal (.bool true)) (.literal .null), some (.variable "p"),
      .sync⟩
    let a : Join := ⟨"a", .variable "y", none, .async none (some 7)⟩
    let d : Join := ⟨"d", .call (.variable "api") "echo" [.variable "x"],
      some (.compare .notEqual (.variable "x") (.literal (.string "fig"))), .async none none⟩
    let g : JoinGroup := ⟨[b, a, d]⟩
    let g' : JoinGroup := ⟨[d, a, b]⟩
    let q : Query := {
      source := ⟨"items", "x"⟩, groups := [], restriction := none
      projection := [("d", .variable "d")] }
    let env : Environment := {
      host := { capability := fun _ =>
        ⟨fun _ _ => true, fun _ _ values => .returned (values.headD .null)⟩ }
      scheduler := fun _ table => table.map (fun _ => .dispatch) ++
        table.reverse.flatMap fun (cell, _) => [.start cell, .finish cell] }
    let c : Context := { innermost := { values := ⟨[
      ("items", .array [.string "pear", .string "fig"]), ("api", .capability ⟨0, "api"⟩)]⟩ } }
    let result (g : JoinGroup) :=
      (outcome ((q.withGroups (before ++ [g])).execute env c) {}).1
    g.siblings.Perm g'.siblings ∧ g.aliases.Nodup ∧ GuardsAnswer env c q.source before g {} ∧
      result g = .error (.error (.ofFailures [⟨0, "b", .mismatch (.cannotAdd "boolean" "null")⟩,
        ⟨0, "a", .unresolved (.undefined "y")⟩])) ∧
      result g = result g' := by
  intro before b a d g g' q env c result
  have hperm : g.siblings.Perm g'.siblings := List.reverse_perm g'.siblings
  have hnodup : g.aliases.Nodup := by decide
  let bound : List Row := [⟨0, [("x", .string "pear")]⟩, ⟨1, [("x", .string "fig")]⟩]
  let behind : List Row := [⟨0, [("x", .string "pear"), ("p", .string "pear")]⟩,
    ⟨1, [("x", .string "fig"), ("p", .string "fig")]⟩]
  have hsource : outcome (bindSource q.source c) {} = (.ok bound, {}) := rfl
  have hbehind : outcome (rowsBehind env c q.source before) {} = (.ok behind, {}) := rfl
  have hguards : GuardsAnswer env c q.source before g {} := by
    intro rows w₁ hrows row hrow guard hguard
    cases hbehind.symm.trans hrows
    have hguards : g.guards = [.variable "p",
        .compare .notEqual (.variable "x") (.literal (.string "fig"))] := rfl
    simp only [hguards, behind, List.mem_cons, List.not_mem_nil, or_false] at hrow hguard
    rcases hrow with rfl | rfl <;> rcases hguard with rfl | rfl <;> exact ⟨_, _, rfl⟩
  have hruns : ∀ group ∈ [g, g'], (q.withGroups (before ++ [group])).RunsTasks env c {} := by
    intro group hgroup rows w hrows
    cases hsource.symm.trans hrows
    refine ⟨?_, ?_⟩
    · intro kept w hkept
      cases (rfl : outcome _ _ = (_, _)).symm.trans hkept
      decide +kernel
    · intro rows w hrows
      cases (rfl : outcome _ _ = (_, _)).symm.trans hrows
      refine ⟨?_, fun _ _ _ => trivial⟩
      intro kept w hkept
      rcases List.mem_cons.mp hgroup with rfl | hgroup
      · cases (rfl : outcome _ _ = (_, _)).symm.trans hkept
        decide +kernel
      · cases List.mem_singleton.mp hgroup
        cases (rfl : outcome _ _ = (_, _)).symm.trans hkept
        decide +kernel
  have hhost : env.host.IsPure := ⟨fun _ _ => rfl, fun _ _ _ _ => rfl⟩
  have hpure : c.IsPure := fun _ h => by cases h
  have hw : c.Agrees {} := Context.agrees_of_loaded_nil rfl
  exact ⟨hperm, hnodup, hguards, rfl,
    execute_perm q before g g' [] hhost hpure rfl hperm hnodup hguards hw hw
      (hruns g (by simp)) (hruns g' (by simp))⟩

end Query
end RowQuery
