import Mathlib.Data.List.Nodup
import Mathlib.Data.List.Perm.Subperm
import RowQuery.Join.Progress

/-!
# What becomes of the cells of a group

`Step` says once what each event can do. From it follow the accounts of a group, first for one
event, then along a schedule: cells are dispatched in the order of the table, the permits out are
held by the tasks under way, and no cell is evaluated twice. At the end of a group every cell has
been dispatched, so where every submitted task also did its work each cell was evaluated once.
-/

set_option autoImplicit false

namespace RowQuery

open List (Subperm)

/-! ## Steps -/

/-- What an event can do in a state: the effect and the state after it. -/
inductive Progress.Step (p : Progress) : Event → Effect → Progress → Prop
  | inline {cell : Cell} {ahead : List (Cell × Placement)} (h : p.ahead = (cell, .inline) :: ahead) :
      Step p .dispatch (.evaluate cell) { p with ahead }
  | submit {cell : Cell} {executor : Option Nat} {ahead : List (Cell × Placement)}
      {gate : Option Gate} (h : p.ahead = (cell, .task executor) :: ahead)
      (permit : Progress.acquire? p.gate = some gate) :
      Step p .dispatch (.submit cell executor)
        { p with ahead, gate, queued := p.queued ++ [cell] }
  | start {cell : Cell} (h : cell ∈ p.queued) :
      Step p (.start cell) .nothing
        { p with queued := p.queued.erase cell, running := p.running ++ [cell] }
  | finish {cell : Cell} {gate : Option Gate} (h : cell ∈ p.running)
      (permit : Progress.release? p.gate = some gate) :
      Step p (.finish cell) (.work cell) { p with gate, running := p.running.erase cell }
  | drop {cell : Cell} {gate : Option Gate} (h : cell ∈ p.queued)
      (permit : Progress.release? p.gate = some gate) :
      Step p (.drop cell) .nothing { p with gate, queued := p.queued.erase cell }

namespace Progress

variable {p q : Progress} {event : Event} {effect : Effect}

theorem step_of_step? (h : p.step? event = some (effect, q)) : p.Step event effect q := by
  cases event with
  | dispatch =>
    unfold step? at h
    rcases hahead : p.ahead with - | ⟨⟨cell, placement⟩, ahead⟩
    · rw [hahead] at h
      cases h
    · rw [hahead] at h
      cases placement with
      | inline =>
        cases h
        exact .inline hahead
      | task executor =>
        obtain ⟨gate, hgate, h⟩ := Option.bind_eq_some_iff.mp h
        cases h
        exact .submit hahead hgate
  | start cell =>
    unfold step? at h
    dsimp only at h
    split at h
    · rename_i hmem
      cases h
      exact .start hmem
    · cases h
  | finish cell =>
    unfold step? at h
    dsimp only at h
    split at h
    · rename_i hmem
      obtain ⟨gate, hgate, h⟩ := Option.bind_eq_some_iff.mp h
      cases h
      exact .finish hmem hgate
    · cases h
  | drop cell =>
    unfold step? at h
    dsimp only at h
    split at h
    · rename_i hmem
      obtain ⟨gate, hgate, h⟩ := Option.bind_eq_some_iff.mp h
      cases h
      exact .drop hmem hgate
    · cases h

theorem step?_of_step (h : p.Step event effect q) : p.step? event = some (effect, q) := by
  cases h with
  | inline h =>
    unfold step?
    rw [h]
  | submit h permit =>
    unfold step?
    rw [h]
    dsimp only
    rw [permit]
    rfl
  | start h => exact if_pos h
  | finish h permit =>
    unfold step?
    dsimp only
    rw [if_pos h, permit]
    rfl
  | drop h permit =>
    unfold step?
    dsimp only
    rw [if_pos h, permit]
    rfl

end Progress

/-! ## What effects account for -/

/-- The entry of the table that the effect deals with, if any. -/
def Effect.dispatched : Effect → List (Cell × Placement)
  | .evaluate cell => [(cell, .inline)]
  | .submit cell executor => [(cell, .task executor)]
  | .nothing => []
  | .work _ => []

/-- The cell that is evaluated, if any. -/
def Effect.evaluated : Effect → List Cell
  | .evaluate cell => [cell]
  | .work cell => [cell]
  | .nothing => []
  | .submit _ _ => []

/-- The cell whose task is handed over, if any. -/
def Effect.submitted : Effect → List Cell
  | .submit cell _ => [cell]
  | .nothing => []
  | .evaluate _ => []
  | .work _ => []

/-- Every task that is submitted does its work, and does it once. -/
def RunsEach (effects : List Effect) : Prop :=
  ∀ cell ∈ effects.flatMap Effect.submitted, effects.count (.work cell) = 1

instance (effects : List Effect) : Decidable (RunsEach effects) :=
  inferInstanceAs (Decidable (∀ cell ∈ _, _))

/-- The task of the cell is handed over and never does its work. -/
def Dropped (effects : List Effect) (cell : Cell) : Prop :=
  cell ∈ effects.flatMap Effect.submitted ∧ .work cell ∉ effects

instance (effects : List Effect) (cell : Cell) : Decidable (Dropped effects cell) :=
  inferInstanceAs (Decidable (_ ∧ _))

theorem RunsEach.not_dropped {effects : List Effect} (h : RunsEach effects) (cell : Cell) :
    ¬Dropped effects cell := by
  rintro ⟨hsubmitted, hwork⟩
  have hcount := h cell hsubmitted
  rw [List.count_eq_zero_of_not_mem hwork] at hcount
  cases hcount

namespace Progress

variable {p q : Progress} {event : Event} {effect : Effect}

/-- The cells that may still be evaluated. -/
def cells (p : Progress) : List Cell := p.ahead.map Prod.fst ++ (p.queued ++ p.running)

/-- The permits out are those of the tasks under way. -/
def Permits (p : Progress) : Prop :=
  ∀ gate, p.gate = some gate → gate.inFlight = p.queued.length + p.running.length

theorem acquired {before : Option Gate} {after : Gate} (h : acquire? before = some (some after)) :
    ∃ gate, before = some gate ∧ after.inFlight = gate.inFlight + 1 ∧ after.limit = gate.limit := by
  cases before with
  | none => cases h
  | some gate =>
    obtain ⟨g, hg, heq⟩ := Option.map_eq_some_iff.mp h
    cases heq
    unfold Gate.acquire? at hg
    split at hg
    · cases hg
      exact ⟨gate, rfl, rfl, rfl⟩
    · cases hg

theorem released {before : Option Gate} {after : Gate} (h : release? before = some (some after)) :
    ∃ gate, before = some gate ∧ after.inFlight + 1 = gate.inFlight ∧ after.limit = gate.limit := by
  cases before with
  | none => cases h
  | some gate =>
    obtain ⟨g, hg, heq⟩ := Option.map_eq_some_iff.mp h
    cases heq
    unfold Gate.release? at hg
    split at hg
    · rename_i hpos
      cases hg
      exact ⟨gate, rfl, Nat.sub_add_cancel hpos, rfl⟩
    · cases hg

/-! ## One event -/

/-- The table is dispatched from its front. -/
theorem step_dispatched (h : p.Step event effect q) :
    effect.dispatched ++ q.ahead = p.ahead := by
  cases h with
  | inline h => exact h.symm
  | submit h _ => exact h.symm
  | start _ => rfl
  | finish _ _ => rfl
  | drop _ _ => rfl

/-- What is evaluated is not there to be evaluated again. -/
theorem step_evaluated (h : p.Step event effect q) :
    Subperm (effect.evaluated ++ q.cells) p.cells := by
  unfold cells
  cases h with
  | inline h =>
    rw [h]
    exact (List.Perm.refl _).subperm
  | @submit cell _ ahead _ h _ =>
    rw [h]
    show Subperm (ahead.map Prod.fst ++ (p.queued ++ [cell] ++ p.running))
      (cell :: (ahead.map Prod.fst ++ (p.queued ++ p.running)))
    rw [List.append_assoc, List.singleton_append]
    refine List.Perm.subperm ?_
    exact (List.perm_middle.append_left _).trans List.perm_middle
  | @start cell h =>
    refine List.Perm.subperm ?_
    show List.Perm (_ ++ (p.queued.erase cell ++ (p.running ++ [cell]))) _
    refine List.Perm.append_left _ ?_
    rw [← List.append_assoc]
    refine List.perm_append_comm.trans ?_
    exact ((List.perm_cons_erase h).append_right _).symm
  | @finish cell _ h _ =>
    refine List.Perm.subperm ?_
    show List.Perm (cell :: (_ ++ (p.queued ++ p.running.erase cell))) _
    refine List.perm_middle.symm.trans (List.Perm.append_left _ ?_)
    exact List.perm_middle.symm.trans ((List.perm_cons_erase h).symm.append_left _)
  | @drop cell _ h _ =>
    -- a dropped cell is on neither side, so this is no permutation
    refine List.Sublist.subperm ?_
    exact (List.erase_sublist.append (List.Sublist.refl _)).append_left _

theorem step_permits (h : p.Step event effect q) (hp : p.Permits) : q.Permits := by
  intro gate hgate
  cases h with
  | inline _ => exact hp gate hgate
  | submit _ permit =>
    dsimp only at hgate
    subst hgate
    obtain ⟨before, hold, hafter, -⟩ := acquired permit
    have hcount := hp before hold
    simp only [List.length_append, List.length_singleton]
    omega
  | @start cell h =>
    have hcount := hp gate hgate
    have herase := List.length_erase_add_one h
    simp only [List.length_append, List.length_singleton]
    omega
  | @finish cell _ h permit =>
    dsimp only at hgate
    subst hgate
    obtain ⟨before, hold, hafter, -⟩ := released permit
    have hcount := hp before hold
    have herase := List.length_erase_add_one h
    dsimp only
    omega
  | @drop cell _ h permit =>
    dsimp only at hgate
    subst hgate
    obtain ⟨before, hold, hafter, -⟩ := released permit
    have hcount := hp before hold
    have herase := List.length_erase_add_one h
    dsimp only
    omega

/-! ## A schedule -/

theorem follow_cons_none {rest : Schedule} (h : p.step? event = none) :
    p.follow (event :: rest) = p.follow rest := by
  rw [follow, h]

theorem follow_cons_some {rest : Schedule} (h : p.Step event effect q) :
    p.follow (event :: rest) = (effect :: (q.follow rest).1, (q.follow rest).2) := by
  rw [follow, step?_of_step h]

theorem follow_append (front back : Schedule) : ∀ p : Progress,
    p.follow (front ++ back) =
      ((p.follow front).1 ++ ((p.follow front).2.follow back).1,
        ((p.follow front).2.follow back).2) := by
  induction front with
  | nil => exact fun _ => rfl
  | cons event rest ih =>
    intro p
    rw [List.cons_append]
    rcases hstep : p.step? event with - | ⟨effect, q⟩
    · rw [follow_cons_none hstep, follow_cons_none hstep]
      exact ih p
    · have h := step_of_step? hstep
      rw [follow_cons_some h, follow_cons_some h, ih q]
      rfl

/-- The induction that every account uses: what one event keeps, a schedule keeps. -/
theorem follow_induction {motive : Progress → List Effect → Progress → Prop}
    (nil : ∀ p, motive p [] p)
    (cons : ∀ {p event effect q effects last}, p.Step event effect q → motive q effects last →
      motive p (effect :: effects) last) (schedule : Schedule) :
    ∀ p : Progress, motive p (p.follow schedule).1 (p.follow schedule).2 := by
  induction schedule with
  | nil => exact fun p => nil p
  | cons event rest ih =>
    intro p
    rcases hstep : p.step? event with - | ⟨effect, q⟩
    · rw [follow_cons_none hstep]
      exact ih p
    · have h := step_of_step? hstep
      rw [follow_cons_some h]
      exact cons h (ih q)

theorem follow_dispatched (schedule : Schedule) (p : Progress) :
    (p.follow schedule).1.flatMap Effect.dispatched ++ (p.follow schedule).2.ahead = p.ahead := by
  refine follow_induction
    (motive := fun p effects last => effects.flatMap Effect.dispatched ++ last.ahead = p.ahead)
    (fun _ => rfl) ?_ schedule p
  intro p event effect q effects last h ih
  rw [List.flatMap_cons, List.append_assoc, ih]
  exact step_dispatched h

theorem follow_evaluated (schedule : Schedule) (p : Progress) :
    Subperm ((p.follow schedule).1.flatMap Effect.evaluated ++ (p.follow schedule).2.cells)
      p.cells := by
  refine follow_induction
    (motive := fun p effects last =>
      Subperm (effects.flatMap Effect.evaluated ++ last.cells) p.cells)
    (fun _ => (List.Perm.refl _).subperm) ?_ schedule p
  intro p event effect q effects last h ih
  refine Subperm.trans ?_ (step_evaluated h)
  rw [List.flatMap_cons, List.append_assoc]
  exact (List.subperm_append_left _).mpr ih

theorem follow_permits (schedule : Schedule) (p : Progress) (hp : p.Permits) :
    (p.follow schedule).2.Permits := by
  refine follow_induction (motive := fun p _ last => p.Permits → last.Permits)
    (fun _ hp => hp) ?_ schedule p hp
  intro p event effect q effects last h ih hp
  exact ih (step_permits h hp)

/-! ## The end of a group -/

theorem exists_release (hp : p.Permits) (h : 0 < p.queued.length + p.running.length) :
    ∃ gate, release? p.gate = some gate := by
  cases hgate : p.gate with
  | none => exact ⟨none, rfl⟩
  | some gate =>
    have hcount := hp gate hgate
    refine ⟨some { gate with inFlight := gate.inFlight - 1 }, ?_⟩
    unfold release? Gate.release?
    dsimp only
    rw [if_pos (by omega)]
    rfl

theorem exists_acquire (hp : p.Permits) (hqueued : p.queued = []) (hrunning : p.running = []) :
    ∃ gate, acquire? p.gate = some gate := by
  cases hgate : p.gate with
  | none => exact ⟨none, rfl⟩
  | some gate =>
    have hcount := hp gate hgate
    rw [hqueued, hrunning] at hcount
    have hpos := gate.limit_pos
    refine ⟨some { gate with inFlight := gate.inFlight + 1 }, ?_⟩
    unfold acquire? Gate.acquire?
    dsimp only
    rw [if_pos (by rw [hcount]; exact hpos)]
    rfl

theorem follow_finish (running : List Cell) : ∀ p : Progress, p.running = running → p.Permits →
    ∃ gate, (p.follow (running.map .finish)).2 = { p with gate, running := [] } := by
  induction running with
  | nil =>
    intro p hrunning _
    obtain ⟨ahead, queued, running, gate⟩ := p
    dsimp only at hrunning
    subst hrunning
    exact ⟨gate, rfl⟩
  | cons cell rest ih =>
    intro p hrunning hp
    have hmem : cell ∈ p.running := by
      rw [hrunning]
      exact List.mem_cons_self
    have hpos := List.length_pos_of_mem hmem
    obtain ⟨gate, hgate⟩ := exists_release hp (by omega)
    have hstep := Step.finish hmem hgate
    obtain ⟨last, hlast⟩ := ih { p with gate, running := p.running.erase cell }
      (by rw [hrunning]; exact List.erase_cons_head _ _) (step_permits hstep hp)
    refine ⟨last, ?_⟩
    rw [List.map_cons, follow_cons_some hstep]
    exact hlast

theorem follow_drop (queued : List Cell) : ∀ p : Progress, p.queued = queued → p.Permits →
    ∃ gate, (p.follow (queued.map .drop)).2 = { p with gate, queued := [] } := by
  induction queued with
  | nil =>
    intro p hqueued _
    obtain ⟨ahead, queued, running, gate⟩ := p
    dsimp only at hqueued
    subst hqueued
    exact ⟨gate, rfl⟩
  | cons cell rest ih =>
    intro p hqueued hp
    have hmem : cell ∈ p.queued := by
      rw [hqueued]
      exact List.mem_cons_self
    have hpos := List.length_pos_of_mem hmem
    obtain ⟨gate, hgate⟩ := exists_release hp (by omega)
    have hstep := Step.drop hmem hgate
    obtain ⟨last, hlast⟩ := ih { p with gate, queued := p.queued.erase cell }
      (by rw [hqueued]; exact List.erase_cons_head _ _) (step_permits hstep hp)
    refine ⟨last, ?_⟩
    rw [List.map_cons, follow_cons_some hstep]
    exact hlast

/-- With no task under way there is a permit for every task, and each is dropped at once. -/
theorem follow_ahead (ahead : List (Cell × Placement)) : ∀ p : Progress, p.ahead = ahead →
    p.queued = [] → p.running = [] → p.Permits →
    ∃ gate, (p.follow (ahead.flatMap fun (cell, placement) =>
      match placement with
      | .inline => [.dispatch]
      | .task _ => [.dispatch, .drop cell])).2 = ⟨[], [], [], gate⟩ := by
  induction ahead with
  | nil =>
    intro p hahead hqueued hrunning _
    obtain ⟨ahead, queued, running, gate⟩ := p
    dsimp only at hahead hqueued hrunning
    subst hahead hqueued hrunning
    exact ⟨gate, rfl⟩
  | cons entry rest ih =>
    intro p hahead hqueued hrunning hp
    obtain ⟨cell, placement⟩ := entry
    rw [List.flatMap_cons]
    cases placement with
    | inline =>
      have hstep := Step.inline hahead
      obtain ⟨last, hlast⟩ := ih { p with ahead := rest } rfl hqueued hrunning
        (step_permits hstep hp)
      refine ⟨last, ?_⟩
      show (p.follow (.dispatch :: _)).2 = _
      rw [follow_cons_some hstep]
      exact hlast
    | task executor =>
      obtain ⟨taken, htaken⟩ := exists_acquire hp hqueued hrunning
      have hsubmit := Step.submit hahead htaken
      have hp₁ := step_permits hsubmit hp
      have hmem : cell ∈ p.queued ++ [cell] := List.mem_append_right _ List.mem_cons_self
      obtain ⟨back, hback⟩ := exists_release hp₁ (by
        rw [List.length_append, List.length_singleton]
        omega)
      have hdrop := Step.drop hmem hback
      have hempty : (p.queued ++ [cell]).erase cell = [] := by
        rw [hqueued]
        exact List.erase_cons_head _ _
      obtain ⟨last, hlast⟩ := ih
        { p with ahead := rest, gate := back, queued := (p.queued ++ [cell]).erase cell }
        rfl hempty hrunning (step_permits hdrop hp₁)
      refine ⟨last, ?_⟩
      show (p.follow (.dispatch :: .drop cell :: _)).2 = _
      rw [follow_cons_some hsubmit, follow_cons_some hdrop]
      exact hlast

/-- At the end of a group nothing is left of it. -/
theorem follow_conclusion (hp : p.Permits) :
    ∃ gate, (p.follow p.conclusion).2 = ⟨[], [], [], gate⟩ := by
  unfold conclusion
  rw [follow_append, follow_append]
  obtain ⟨gate₁, h₁⟩ := follow_finish p.running p rfl hp
  have hp₁ := follow_permits (p.running.map .finish) p hp
  rw [h₁] at hp₁ ⊢
  obtain ⟨gate₂, h₂⟩ := follow_drop p.queued { p with gate := gate₁, running := [] } rfl hp₁
  have hp₂ := follow_permits (p.queued.map .drop) _ hp₁
  rw [h₂] at hp₂ ⊢
  exact follow_ahead p.ahead { p with gate := gate₂, queued := [], running := [] } rfl rfl rfl hp₂

/-! ## A whole group -/

theorem course_eq (schedule : Schedule) :
    p.course schedule = (p.follow (schedule ++ (p.follow schedule).2.conclusion)).1 := by
  rw [follow_append]
  rfl

/-- Every cell is dispatched once, in the order of the table. -/
theorem course_dispatched (hp : p.Permits) (schedule : Schedule) :
    (p.course schedule).flatMap Effect.dispatched = p.ahead := by
  obtain ⟨gate, hlast⟩ := follow_conclusion (follow_permits schedule p hp)
  have h := follow_dispatched (schedule ++ (p.follow schedule).2.conclusion) p
  rw [follow_append] at h
  dsimp only at h
  rw [hlast, List.append_nil] at h
  exact h

/-- No cell is evaluated twice. -/
theorem course_evaluated (schedule : Schedule) :
    Subperm ((p.course schedule).flatMap Effect.evaluated) p.cells := by
  rw [course_eq]
  have h := follow_evaluated (schedule ++ (p.follow schedule).2.conclusion) p
  exact Subperm.trans (List.sublist_append_left _ _).subperm h

variable {cell : Cell}

/-- Only what stands in the table as a task is handed over. -/
theorem exists_task_of_submitted (hp : p.Permits) {schedule : Schedule}
    (h : cell ∈ (p.course schedule).flatMap Effect.submitted) :
    ∃ executor, (cell, .task executor) ∈ p.ahead := by
  obtain ⟨effect, heffect, hmem⟩ := List.mem_flatMap.mp h
  cases effect with
  | submit other executor =>
    cases List.mem_singleton.mp hmem
    refine ⟨executor, ?_⟩
    rw [← course_dispatched hp schedule]
    exact List.mem_flatMap.mpr ⟨_, heffect, List.mem_cons_self⟩
  | nothing => cases hmem
  | evaluate _ => cases hmem
  | work _ => cases hmem

/-- A cell of the table is evaluated unless its task is dropped. -/
theorem evaluated_course_iff (hp : p.Permits) (hnodup : (p.ahead.map Prod.fst).Nodup)
    (schedule : Schedule) (hcell : cell ∈ p.ahead.map Prod.fst) :
    cell ∈ (p.course schedule).flatMap Effect.evaluated ↔ ¬Dropped (p.course schedule) cell := by
  have hdispatched := course_dispatched hp schedule
  constructor
  · rintro hmem ⟨hsubmitted, hwork⟩
    -- it was evaluated by the dispatcher, and handed over too: that makes two entries
    have hinline : (cell, .inline) ∈ p.ahead := by
      rw [← hdispatched]
      obtain ⟨effect, heffect, hcell⟩ := List.mem_flatMap.mp hmem
      cases effect with
      | evaluate other =>
        cases List.mem_singleton.mp hcell
        exact List.mem_flatMap.mpr ⟨_, heffect, List.mem_cons_self⟩
      | work other =>
        cases List.mem_singleton.mp hcell
        exact absurd heffect hwork
      | nothing => cases hcell
      | submit _ _ => cases hcell
    obtain ⟨executor, htask⟩ := exists_task_of_submitted hp hsubmitted
    have hsame := List.inj_on_of_nodup_map hnodup hinline htask rfl
    cases hsame
  · intro hkept
    obtain ⟨⟨cell, placement⟩, hentry, rfl⟩ := List.mem_map.mp hcell
    rw [← hdispatched] at hentry
    obtain ⟨effect, heffect, hmem⟩ := List.mem_flatMap.mp hentry
    cases effect with
    | evaluate other =>
      cases List.mem_singleton.mp hmem
      exact List.mem_flatMap.mpr ⟨_, heffect, List.mem_cons_self⟩
    | submit other executor =>
      cases List.mem_singleton.mp hmem
      have hsubmitted : cell ∈ (p.course schedule).flatMap Effect.submitted :=
        List.mem_flatMap.mpr ⟨_, heffect, List.mem_cons_self⟩
      have hwork : Effect.work cell ∈ p.course schedule := by
        by_contra hwork
        exact hkept ⟨hsubmitted, hwork⟩
      exact List.mem_flatMap.mpr ⟨_, hwork, List.mem_cons_self⟩
    | nothing => cases hmem
    | work _ => cases hmem

/-- Where every submitted task does its work, the cells of the table are evaluated once each. -/
theorem course_evaluated_perm (hp : p.Permits) (hqueued : p.queued = []) (hrunning : p.running = [])
    (hnodup : (p.ahead.map Prod.fst).Nodup) {schedule : Schedule}
    (hruns : RunsEach (p.course schedule)) :
    ((p.course schedule).flatMap Effect.evaluated).Perm (p.ahead.map Prod.fst) := by
  have hsub := course_evaluated (p := p) schedule
  rw [cells, hqueued, hrunning, List.append_nil, List.append_nil] at hsub
  -- nothing else is evaluated; it is left that every cell of the table is
  refine hsub.antisymm (List.subperm_of_subset hnodup ?_)
  exact fun cell hcell =>
    (evaluated_course_iff hp hnodup schedule hcell).mpr (hruns.not_dropped cell)

end Progress
end RowQuery
