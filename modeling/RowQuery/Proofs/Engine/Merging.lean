import RowQuery.Proofs.Engine.Binding
import RowQuery.Proofs.Engine.Lockstep

/-!
# Siblings refine groups that follow each other

If a query succeeds with two groups of which the second mentions no alias of the first, it succeeds
with the same objects where the two are one group (`Query.execute_merge`). The converse does not
hold: as siblings the second group's guards come before the first group's expressions, and a row
they drop is not evaluated at all.

What comes before the two groups and behind them is the same (`Query.fromRows_withGroups`), so it is
enough to compare their stages, and these for one row (`Elementwise.ok_of_single`). There an
expression that mentions no alias of the first group is the same computation before that group has
bound its aliases as afterwards (`JoinGroup.sameNames_settledRow`).
-/

set_option autoImplicit false

namespace RowQuery

open Run

/-! ## Queries that differ in their groups -/

namespace Query

/-- The query with these groups for its own. -/
def withGroups (q : Query) (groups : List JoinGroup) : Query := { q with groups }

variable {env : Environment} {c : Context}

/-- The groups at the front are gone through before the rest of the query. -/
theorem fromRows_withGroups (q : Query) (front back : List JoinGroup) (rows : List Row) :
    (q.withGroups (front ++ back)).fromRows env c rows =
      through env c (groupStages front) rows >>= (q.withGroups back).fromRows env c := by
  have hstages : (q.withGroups (front ++ back)).rowStages =
      groupStages front ++ (q.withGroups back).rowStages := by
    unfold rowStages withGroups groupStages
    rw [List.flatMap_append, List.append_assoc]
  unfold fromRows
  rw [hstages, through_append, bind_assoc]
  rfl

end Query

/-! ## Two groups as one -/

namespace JoinGroup

variable {env : Environment} {c : Context}

/-- The siblings of both groups, those of the first before those of the second. -/
def merge (g h : JoinGroup) : JoinGroup := ⟨g.siblings ++ h.siblings⟩

/-- The names its guards and its expressions mention. -/
def names (g : JoinGroup) : List String := (Stage.guards g).names ++ (Stage.dispatch g).names

def aliases (g : JoinGroup) : List String := g.siblings.map Join.aliasName

theorem guards_merge (g h : JoinGroup) : (g.merge h).guards = g.guards ++ h.guards :=
  List.filterMap_append

/-- A name that is not an alias of the group is read alike before and after it. -/
theorem sameNames_settledRow (m : Meaning env.host c) (g : JoinGroup) (row : Row)
    {names : List String} (h : ∀ name ∈ names, name ∉ g.aliases) :
    Scope.SameNames env.host c (g.settledRow m row).1 c row names := by
  intro name hname
  unfold Scope.lookup
  dsimp only
  rw [settledRow, get?_bindRow g.siblings row _ (h name hname)]

variable {g h : JoinGroup}

/-- A row settles in the merged group as it does in one group after the other. -/
theorem settledRow_merge (m : Meaning env.host c) (row : Row)
    (hnames : ∀ name ∈ h.names, name ∉ g.aliases) :
    (g.merge h).settledRow m row =
      ((h.settledRow m (g.settledRow m row).1).1,
        (g.settledRow m row).2 ++ (h.settledRow m (g.settledRow m row).1).2) := by
  have hvalues : ∀ join ∈ h.siblings,
      m.value row join.expr = m.value (g.settledRow m row).1 join.expr := by
    intro join hjoin
    refine (m.value_congr (g.sameNames_settledRow m row fun name hname => hnames name ?_)).symm
    exact List.mem_append_right _ (List.mem_flatMap.mpr ⟨join, hjoin, hname⟩)
  have hslots : (h.siblings.map fun join => some (m.value row join.expr)) =
      h.siblings.map fun join => some (m.value (g.settledRow m row).1 join.expr) :=
    List.map_congr_left fun join hjoin => congrArg some (hvalues join hjoin)
  show bindRow row (g.siblings ++ h.siblings) ((g.siblings ++ h.siblings).map _) = _
  rw [List.map_append, hslots, bindRow_append _ _ row _ (List.length_map _).symm]
  rfl

theorem passes_append (s : Scope) (guards guards' : List Expr) :
    passes s (guards ++ guards') = do
      if ← passes s guards then passes s guards' else return false := by
  induction guards with
  | nil => rfl
  | cons guard rest ih =>
    rw [List.cons_append, passes, passes, bind_assoc]
    refine bind_congr fun v => ?_
    split
    · rfl
    · rfl
    · exact ih

/-- A row passes the guards of the merged group as it does those of one group after the other. -/
theorem passes_merge (m : Meaning env.host c) (row : Row)
    (hnames : ∀ name ∈ h.names, name ∉ g.aliases) :
    passes (scope env c row) (g.merge h).guards = do
      if ← passes (scope env c row) g.guards then
        passes (scope env c (g.settledRow m row).1) h.guards
      else return false := by
  have hguards : passes (scope env c (g.settledRow m row).1) h.guards =
      passes (scope env c row) h.guards :=
    Scope.passes_congr h.guards (g.sameNames_settledRow m row fun name hname =>
      hnames name (List.mem_append_left _ hname))
  rw [guards_merge, passes_append, hguards]

end JoinGroup

/-! ## One row -/

namespace JoinGroup

variable {env : Environment} {c : Context}

theorem through_group (g : JoinGroup) (rows : List Row) : through env c (groupStages [g]) rows =
    (Stage.guards g).run env c rows >>= (Stage.dispatch g).run env c := by
  show ((Stage.guards g).run env c rows >>= fun rows =>
    (Stage.dispatch g).run env c rows >>= pure) = _
  exact bind_congr fun kept => bind_pure _

theorem through_single (g : JoinGroup) (row : Row) :
    through env c (groupStages [g]) [row] =
      evaluated (passes (scope env c row) g.guards) >>= fun passed =>
        (Stage.dispatch g).run env c (if passed then [row] else []) := by
  rw [through_group, Stage.run_guards]
  dsimp only
  rw [sift_single, keepIf, bind_assoc, evaluated_bind, bind_assoc]
  refine bind_congr fun passed => ?_
  cases passed <;> rfl

section

variable (hhost : env.host.IsPure) (hpure : c.IsPure)

include hhost hpure

/-- A row goes through a group if its guards can be told and, where they let it pass, all siblings
have a value. -/
theorem answer_through_single_iff (m : Meaning env.host c) (g : JoinGroup) (row : Row)
    (out : List Row) :
    (through env c (groupStages [g]) [row]).answer = .ok out ↔
      ∃ passed, (passes (scope env c row) g.guards).answer = .ok passed ∧
        (passed = true → (g.settledRow m row).2 = []) ∧
        out = if passed then [(g.settledRow m row).1] else [] := by
  have hpasses := (isSteady_passes (s := scope env c row) hhost hpure g.guards).firm.evaluated
  have hdispatch := fun rows => (g.steady_dispatch m rows).firm
  rw [through_single, hpasses.answer_bind_eq_ok fun passed => hdispatch _]
  refine exists_congr fun passed => and_congr answer_evaluated_eq_ok_iff ?_
  rw [g.answer_dispatch_eq_ok_iff m]
  cases passed <;> simp

variable {g h : JoinGroup}

/-- What a row becomes in one group after the other it becomes in the merged group. -/
theorem answer_through_merge_single (hnames : ∀ name ∈ h.names, name ∉ g.aliases) {row : Row}
    {out : List Row} (hout : (through env c (groupStages [g, h]) [row]).answer = .ok out) :
    (through env c (groupStages [g.merge h]) [row]).answer = .ok out := by
  obtain ⟨m⟩ := exists_meaning hhost hpure
  have hgroups : ∀ groups : List JoinGroup, Elementwise c (through env c (groupStages groups)) :=
    fun groups => elementwise_through hhost hpure (groupStages groups)
  have hsplit : through env c (groupStages [g, h]) [row] =
      through env c (groupStages [g]) [row] >>= through env c (groupStages [h]) :=
    through_append _ _ _
  rw [hsplit, ((hgroups [g]).firm _).answer_bind_eq_ok (hgroups [h]).firm] at hout
  obtain ⟨mid, hmid, hout⟩ := hout
  obtain ⟨passed, hpassed, hsettled, rfl⟩ :=
    (answer_through_single_iff hhost hpure m g row mid).mp hmid
  have hfirm : ∀ row guards, Firm c (passes (scope env c row) guards) := fun row guards =>
    (isSteady_passes (s := scope env c row) hhost hpure guards).firm
  have hpasses : ∀ passed', (if passed then passes (scope env c (g.settledRow m row).1) h.guards
      else return false).answer = .ok passed' →
      (passes (scope env c row) (g.merge h).guards).answer = .ok passed' := by
    intro passed' hpassed'
    rw [passes_merge m row hnames, (hfirm row g.guards).answer_bind_eq_ok]
    · exact ⟨passed, hpassed, hpassed'⟩
    · intro passed
      split
      · exact hfirm _ h.guards
      · exact .pure _
  rw [answer_through_single_iff hhost hpure m, settledRow_merge m row hnames]
  cases passed with
  | false =>
    -- dropped by the first group, so nothing of the row is left for the second
    rw [if_neg Bool.false_ne_true, (hgroups [h]).nil] at hout
    cases hout
    exact ⟨false, hpasses false rfl, nofun, rfl⟩
  | true =>
    rw [if_pos rfl, answer_through_single_iff hhost hpure m] at hout
    obtain ⟨passed', hpassed', hsettled', rfl⟩ := hout
    refine ⟨passed', hpasses passed' hpassed', fun hpass => ?_, rfl⟩
    rw [hsettled rfl, hsettled' hpass]
    rfl

end

end JoinGroup

/-! ## A query -/

namespace Query

variable {env : Environment} {c : Context}

section

variable (hhost : env.host.IsPure) (hpure : c.IsPure)

include hhost hpure

/-- Groups in the midst of a query can be replaced by groups that come to the same rows. -/
theorem answer_fromRows_of_groups (q : Query) (before : List JoinGroup)
    {middle middle' : List JoinGroup} (after : List JoinGroup)
    (hmiddle : ∀ rows out, (through env c (groupStages middle) rows).answer = .ok out →
      (through env c (groupStages middle') rows).answer = .ok out)
    {rows : List Row} {objects : List Object}
    (hout : ((q.withGroups (before ++ (middle ++ after))).fromRows env c rows).answer =
      .ok objects) :
    ((q.withGroups (before ++ (middle' ++ after))).fromRows env c rows).answer = .ok objects := by
  have hgroups : ∀ groups rows, Firm c (through env c (groupStages groups) rows) :=
    fun groups => (elementwise_through hhost hpure (groupStages groups)).firm
  have hrest : ∀ groups rows, Firm c ((q.withGroups groups).fromRows env c rows) :=
    fun groups => ((q.withGroups groups).elementwise_fromRows hhost hpure).firm
  have hsplit : ∀ front back rows, ((q.withGroups (front ++ back)).fromRows env c rows).answer =
      .ok objects ↔ ∃ mid, (through env c (groupStages front) rows).answer = .ok mid ∧
        ((q.withGroups back).fromRows env c mid).answer = .ok objects := by
    intro front back rows
    rw [fromRows_withGroups]
    exact (hgroups front rows).answer_bind_eq_ok (hrest back)
  obtain ⟨mid, hbefore, hmid⟩ := (hsplit before _ rows).mp hout
  obtain ⟨out, hout, hafter⟩ := (hsplit middle after mid).mp hmid
  exact (hsplit before _ rows).mpr
    ⟨mid, hbefore, (hsplit middle' after mid).mpr ⟨out, hmiddle mid out hout, hafter⟩⟩

end

/-- A query that succeeds with two groups, the second mentioning no alias of the first, succeeds
with the same objects where the two are one group. -/
theorem execute_merge (q : Query) (before : List JoinGroup) (g h : JoinGroup)
    (after : List JoinGroup) {w w' : World} (hhost : env.host.IsPure) (hpure : c.IsPure)
    (hpool : env.poolFailure = none) (hnames : ∀ name ∈ h.names, name ∉ g.aliases)
    (hw : c.Agrees w) (hw' : c.Agrees w')
    (hruns : (q.withGroups (before ++ g :: h :: after)).RunsTasks env c w)
    (hruns' : (q.withGroups (before ++ g.merge h :: after)).RunsTasks env c w')
    {objects : List Object}
    (hout : (outcome ((q.withGroups (before ++ g :: h :: after)).execute env c) w).1 =
      .ok objects) :
    (outcome ((q.withGroups (before ++ g.merge h :: after)).execute env c) w').1 =
      .ok objects := by
  have hgroups : ∀ groups : List JoinGroup, Elementwise c (through env c (groupStages groups)) :=
    fun groups => elementwise_through hhost hpure (groupStages groups)
  have hmerge : ∀ rows out, (through env c (groupStages [g, h]) rows).answer = .ok out →
      (through env c (groupStages [g.merge h]) rows).answer = .ok out := fun rows out =>
    (hgroups [g, h]).ok_of_single (hgroups [g.merge h]) fun row out =>
      JoinGroup.answer_through_merge_single hhost hpure hnames
  have hfirm : ∀ groups rows, Firm c ((q.withGroups groups).fromRows env c rows) :=
    fun groups => ((q.withGroups groups).elementwise_fromRows hhost hpure).firm
  obtain ⟨r, hsource⟩ := exists_steady_bindSource hpure q.source
  rw [(outcome_execute_eq hhost hpure hpool _ hw hruns).1] at hout
  rw [(outcome_execute_eq hhost hpure hpool _ hw' hruns').1]
  obtain ⟨rows, hrows, hout⟩ := (hsource.firm.answer_bind_eq_ok (hfirm _)).mp hout
  exact (hsource.firm.answer_bind_eq_ok (hfirm _)).mpr
    ⟨rows, hrows, q.answer_fromRows_of_groups hhost hpure before after hmerge hout⟩

/-- The second group rebinds an alias of the first, and its guard drops a row that the first group
has evaluated. -/
theorem execute_merge_rebound :
    let first : JoinGroup := ⟨[
      ⟨"a", .call (.variable "api") "echo" [.variable "x"], none, .async none none⟩,
      ⟨"b", .variable "x", some (.literal (.bool true)), .sync⟩]⟩
    let second : JoinGroup := ⟨[
      ⟨"a", .call (.variable "api") "echo" [.literal (.string "kept")],
        some (.compare .notEqual (.variable "x") (.literal (.string "fig"))),
        .async (some 9) (some 7)⟩]⟩
    let q : Query := {
      source := ⟨"items", "x"⟩, groups := [], restriction := none
      projection := [("a", .variable "a"), ("b", .variable "b")] }
    let env : Environment := {
      host := { capability := fun _ =>
        ⟨fun _ _ => true, fun _ _ values => .returned (values.headD .null)⟩ }
      scheduler := fun _ table => table.map (fun _ => .dispatch) ++
        table.reverse.flatMap fun (cell, _) => [.start cell, .finish cell] }
    let c : Context := { innermost := { values := ⟨[
      ("items", .array [.string "pear", .string "fig"]), ("api", .capability ⟨0, "api"⟩)]⟩ } }
    let result (groups : List JoinGroup) := (outcome ((q.withGroups groups).execute env c) {}).1
    (∀ name ∈ second.names, name ∉ first.aliases) ∧
      (q.withGroups [first, second]).RunsTasks env c {} ∧
      (q.withGroups [first.merge second]).RunsTasks env c {} ∧
      result [first, second] = .ok [⟨[("a", .string "kept"), ("b", .string "pear")]⟩] ∧
      result [first.merge second] = .ok [⟨[("a", .string "kept"), ("b", .string "pear")]⟩] := by
  intro first second q env c result
  have hnames : ∀ name ∈ second.names, name ∉ first.aliases := by decide
  let bound : List Row := [⟨0, [("x", .string "pear")]⟩, ⟨1, [("x", .string "fig")]⟩]
  have hsource : outcome (bindSource q.source c) {} = (.ok bound, {}) := rfl
  have hruns : (q.withGroups [first, second]).RunsTasks env c {} := by
    have hfirst : (outcome (first.execute env c bound) {}).1 = .ok [
        ⟨0, [("x", .string "pear"), ("a", .string "pear"), ("b", .string "pear")]⟩,
        ⟨1, [("x", .string "fig"), ("a", .string "fig"), ("b", .string "fig")]⟩] := rfl
    have hsubmissions : (outcome (first.execute env c bound) {}).2.submissions = [none, none] := rfl
    intro rows w hrows
    cases hsource.symm.trans hrows
    refine ⟨?_, ?_⟩
    · intro kept w hguards
      cases (rfl : outcome _ _ = (_, _)).symm.trans hguards
      decide +kernel
    · intro rows w hrows
      cases hfirst.symm.trans (congrArg Prod.fst hrows)
      have hw : w.submissions = [none, none] := by
        rw [← hsubmissions, hrows]
      refine ⟨?_, fun _ _ _ => trivial⟩
      intro kept w' hguards
      cases (rfl : outcome _ _ = (_, _)).symm.trans hguards
      rw [hw]
      decide +kernel
  have hruns' : (q.withGroups [first.merge second]).RunsTasks env c {} := by
    intro rows w hrows
    cases hsource.symm.trans hrows
    refine ⟨?_, fun _ _ _ => trivial⟩
    intro kept w hguards
    cases (rfl : outcome _ _ = (_, _)).symm.trans hguards
    decide +kernel
  have hhost : env.host.IsPure := ⟨fun _ _ => rfl, fun _ _ _ _ => rfl⟩
  have hpure : c.IsPure := fun _ h => by cases h
  have hw : c.Agrees {} := Context.agrees_of_loaded_nil rfl
  have hout : result [first, second] = .ok [⟨[("a", .string "kept"), ("b", .string "pear")]⟩] := rfl
  exact ⟨hnames, hruns, hruns', hout,
    execute_merge q [] first second [] hhost hpure rfl hnames hw hw hruns hruns' hout⟩

end Query
end RowQuery
