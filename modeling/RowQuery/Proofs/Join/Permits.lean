import RowQuery.Proofs.Join.Outcomes

/-!
# Permits along every course of a group

A group with a limit hands over its tasks through one gate. `Progress.Path` is any course of events
from one state to another, and a step lemma for each account says what one event does to it: a
permit more is out for a task handed over and one less for a task that ended, the limit of the gate
stays, and every event brings the group nearer to its end. From these follow the accounts of a whole
path (`GateAccounts`), among them that a group which is not through can always go on.

The dispatcher waits at the gate only while tasks hold permits, and each of these can end.
-/

set_option autoImplicit false

namespace RowQuery

/-! ## Courses of events -/

namespace Event

/-- A task ends, and its permit comes back. -/
def isEnding : Event → Bool
  | .finish _ => true
  | .drop _ => true
  | .dispatch => false
  | .start _ => false

end Event

namespace Progress

/-- The events of the trace are possible one after another and lead from one state to the other;
each stands with what it makes somebody do. -/
inductive Path : Progress → List (Event × Effect) → Progress → Prop where
  | refl (p : Progress) : Path p [] p
  | step {p q r : Progress} {event : Event} {effect : Effect} {trace : List (Event × Effect)}
      (h : p.Step event effect q) (rest : Path q trace r) : Path p ((event, effect) :: trace) r

/-- Every cell has been dispatched and every task has ended. -/
structure Finished (p : Progress) : Prop where
  ahead : p.ahead = []
  queued : p.queued = []
  running : p.running = []

/-- The tasks that hold a permit. -/
def underWay (p : Progress) : Nat := p.queued.length + p.running.length

/-- The number of events to the end of the group, if no task is dropped. -/
def toGo (p : Progress) : Nat := 3 * p.ahead.length + 2 * p.queued.length + p.running.length

/-- The cells that were handed over, in the order in which they were. -/
def submissions (trace : List (Event × Effect)) : List Cell := trace.flatMap (·.2.submitted)

/-- How many tasks ended. -/
def endings (trace : List (Event × Effect)) : Nat := trace.countP (·.1.isEnding)

variable {p q : Progress} {event : Event} {effect : Effect} {trace : List (Event × Effect)}

/-! ## One event -/

theorem step_underWay (h : p.Step event effect q) :
    q.underWay + endings [(event, effect)] = p.underWay + effect.submitted.length := by
  unfold underWay
  cases h with
  | inline _ => rfl
  | submit _ _ =>
    show (p.queued ++ [_]).length + p.running.length + 0 = _ + 1
    rw [List.length_append, List.length_singleton]
    omega
  | @start cell h =>
    have herase := List.length_erase_add_one h
    show (p.queued.erase cell).length + (p.running ++ [cell]).length + 0 = _ + 0
    rw [List.length_append, List.length_singleton]
    omega
  | @finish cell _ h _ =>
    have herase := List.length_erase_add_one h
    show p.queued.length + (p.running.erase cell).length + 1 = _ + 0
    omega
  | @drop cell _ h _ =>
    have herase := List.length_erase_add_one h
    show (p.queued.erase cell).length + p.running.length + 1 = _ + 0
    omega

/-- Every event brings the end nearer. -/
theorem step_toGo (h : p.Step event effect q) : q.toGo < p.toGo := by
  unfold toGo
  cases h with
  | inline h =>
    rw [h, List.length_cons]
    dsimp only
    omega
  | submit h _ =>
    rw [h, List.length_cons]
    dsimp only
    rw [List.length_append, List.length_singleton]
    omega
  | @start cell h =>
    have herase := List.length_erase_add_one h
    dsimp only
    rw [List.length_append, List.length_singleton]
    omega
  | @finish cell _ h _ =>
    have herase := List.length_erase_add_one h
    dsimp only
    omega
  | @drop cell _ h _ =>
    have herase := List.length_erase_add_one h
    dsimp only
    omega

/-- There is a gate of this limit, and no more permits are out than it has. -/
def GatedBy (limit : Nat) (p : Progress) : Prop :=
  ∃ gate, p.gate = some gate ∧ gate.limit = limit ∧ gate.inFlight ≤ limit

theorem acquire?_le {before after : Gate} (h : before.acquire? = some after) :
    after.limit = before.limit ∧ after.inFlight ≤ after.limit := by
  unfold Gate.acquire? at h
  split at h
  · next hlt =>
    cases h
    exact ⟨rfl, hlt⟩
  · cases h

theorem release?_le {before after : Gate} (h : before.release? = some after) :
    after.limit = before.limit ∧ after.inFlight ≤ before.inFlight := by
  unfold Gate.release? at h
  split at h
  · cases h
    exact ⟨rfl, Nat.sub_le _ _⟩
  · cases h

theorem step_gatedBy {limit : Nat} (h : p.Step event effect q) (hp : p.GatedBy limit) :
    q.GatedBy limit := by
  obtain ⟨gate, hgate, rfl, hle⟩ := hp
  have released {after : Option Gate} (h : release? p.gate = some after) :
      ∃ gate', after = some gate' ∧ gate'.limit = gate.limit ∧ gate'.inFlight ≤ gate.limit := by
    rw [hgate] at h
    obtain ⟨gate', hgate', rfl⟩ := Option.map_eq_some_iff.mp h
    obtain ⟨hlimit, hback⟩ := release?_le hgate'
    exact ⟨gate', rfl, hlimit, Nat.le_trans hback hle⟩
  cases h with
  | inline _ => exact ⟨gate, hgate, rfl, hle⟩
  | submit _ permit =>
    rw [hgate] at permit
    obtain ⟨gate', hgate', rfl⟩ := Option.map_eq_some_iff.mp permit
    obtain ⟨hlimit, hroom⟩ := acquire?_le hgate'
    exact ⟨gate', rfl, hlimit, hlimit ▸ hroom⟩
  | start _ => exact ⟨gate, hgate, rfl, hle⟩
  | finish _ permit => exact released permit
  | drop _ permit => exact released permit

/-! ## A path -/

namespace Path

theorem permits (h : Path p trace q) (hp : p.Permits) : q.Permits := by
  induction h with
  | refl => exact hp
  | step h _ ih => exact ih (step_permits h hp)

theorem gatedBy {limit : Nat} (h : Path p trace q) (hp : p.GatedBy limit) : q.GatedBy limit := by
  induction h with
  | refl => exact hp
  | step h _ ih => exact ih (step_gatedBy h hp)

/-- Permits out and permits that came back are the permits that were given out. -/
theorem underWay (h : Path p trace q) :
    q.underWay + endings trace = p.underWay + (submissions trace).length := by
  induction h with
  | refl => rfl
  | @step p q r event effect trace h _ ih =>
    have hstep := step_underWay h
    have hends : endings ([(event, effect)] ++ trace) = endings [(event, effect)] + endings trace :=
      List.countP_append
    rw [List.singleton_append] at hends
    have hsubmits : (submissions ((event, effect) :: trace)).length =
        effect.submitted.length + (submissions trace).length := List.length_append
    omega

theorem toGo (h : Path p trace q) : q.toGo + trace.length ≤ p.toGo := by
  induction h with
  | refl => exact Nat.le_refl _
  | step h _ ih =>
    have hstep := step_toGo h
    rw [List.length_cons]
    omega

theorem dispatched (h : Path p trace q) :
    trace.flatMap (·.2.dispatched) ++ q.ahead = p.ahead := by
  induction h with
  | refl => rfl
  | step h _ ih =>
    rw [List.flatMap_cons, List.append_assoc, ih]
    exact step_dispatched h

end Path

/-- What the possible events of a schedule do is a path. -/
theorem path_follow (schedule : Schedule) : ∀ p : Progress, ∃ trace,
    Path p trace (p.follow schedule).2 ∧ trace.map Prod.snd = (p.follow schedule).1 := by
  refine follow_induction (motive := fun p effects last => ∃ trace, Path p trace last ∧
    trace.map Prod.snd = effects) (fun p => ⟨[], .refl p, rfl⟩) ?_ schedule
  intro p event effect q effects last h ih
  obtain ⟨trace, hpath, heffects⟩ := ih
  exact ⟨(event, effect) :: trace, .step h hpath, congrArg _ heffects⟩

/-! ## Going on -/

/-- A task that an executor is at work on can finish. -/
theorem exists_finish (hp : p.Permits) {cell : Cell} (h : cell ∈ p.running) :
    ∃ q, p.Step (.finish cell) (.work cell) q := by
  have hpos := List.length_pos_of_mem h
  obtain ⟨gate, hgate⟩ := exists_release hp (by omega)
  exact ⟨_, .finish h hgate⟩

/-- A task that no executor has started can be dropped. -/
theorem exists_drop (hp : p.Permits) {cell : Cell} (h : cell ∈ p.queued) :
    ∃ q, p.Step (.drop cell) .nothing q := by
  have hpos := List.length_pos_of_mem h
  obtain ⟨gate, hgate⟩ := exists_release hp (by omega)
  exact ⟨_, .drop h hgate⟩

/-- The dispatcher can deal with the next cell when no task is under way. -/
theorem exists_dispatch (hp : p.Permits) (hqueued : p.queued = []) (hrunning : p.running = [])
    (hahead : p.ahead ≠ []) : ∃ effect q, p.Step .dispatch effect q := by
  obtain ⟨⟨cell, placement⟩, ahead, hahead⟩ := List.exists_cons_of_ne_nil hahead
  cases placement with
  | inline => exact ⟨_, _, .inline hahead⟩
  | task executor =>
    obtain ⟨gate, hgate⟩ := exists_acquire hp hqueued hrunning
    exact ⟨_, _, .submit hahead hgate⟩

/-- A group that is not through can go on: a task under way can end, and where there is none the
dispatcher finds a permit. -/
theorem exists_step (hp : p.Permits) (h : ¬p.Finished) :
    ∃ event effect q, p.Step event effect q := by
  cases hrunning : p.running with
  | cons cell rest =>
    obtain ⟨q, hq⟩ := exists_finish hp (hrunning ▸ List.mem_cons_self)
    exact ⟨_, _, q, hq⟩
  | nil =>
    cases hqueued : p.queued with
    | cons cell rest =>
      obtain ⟨q, hq⟩ := exists_drop hp (hqueued ▸ List.mem_cons_self)
      exact ⟨_, _, q, hq⟩
    | nil =>
      have hahead : p.ahead ≠ [] := fun hahead => h ⟨hahead, hqueued, hrunning⟩
      obtain ⟨effect, q, hq⟩ := exists_dispatch hp hqueued hrunning hahead
      exact ⟨_, effect, q, hq⟩

/-- From a state in which the permits are accounted for there is a way to the end. -/
theorem exists_path_finished {p : Progress} (hp : p.Permits) :
    ∃ trace last, Path p trace last ∧ last.Finished := by
  induction hgo : p.toGo using Nat.strongRecOn generalizing p with
  | ind n ih =>
    by_cases hfinished : p.Finished
    · exact ⟨[], p, .refl p, hfinished⟩
    · obtain ⟨event, effect, q, hstep⟩ := exists_step hp hfinished
      have hless := step_toGo hstep
      obtain ⟨trace, last, hpath, hlast⟩ := ih q.toGo (hgo ▸ hless) (step_permits hstep hp) rfl
      exact ⟨(event, effect) :: trace, last, .step hstep hpath, hlast⟩

/-! ## The order of submission -/

/-- The cells of the entries that are handed over. -/
def tasks (entries : List (Cell × Placement)) : List Cell :=
  (entries.filter (·.2 ≠ .inline)).map Prod.fst

theorem tasks_append (front back : List (Cell × Placement)) :
    tasks (front ++ back) = tasks front ++ tasks back := by
  unfold tasks
  rw [List.filter_append, List.map_append]

theorem submitted_eq_tasks (effect : Effect) : effect.submitted = tasks effect.dispatched := by
  cases effect <;> rfl

theorem submissions_eq_tasks (trace : List (Event × Effect)) :
    submissions trace = tasks (trace.flatMap (·.2.dispatched)) := by
  induction trace with
  | nil => rfl
  | cons entry rest ih =>
    rw [List.flatMap_cons, tasks_append, ← ih, ← submitted_eq_tasks]
    rfl

/-- The tasks handed over and those to come are the tasks of the table, in its order. -/
theorem Path.submissions (h : Path p trace q) :
    submissions trace ++ tasks q.ahead = tasks p.ahead := by
  rw [submissions_eq_tasks, ← tasks_append, h.dispatched]

end Progress

/-- The one cell comes before the other row by row, siblings in order. -/
def Cell.Before (a b : Cell) : Prop := a.row < b.row ∨ (a.row = b.row ∧ a.sibling < b.sibling)

theorem Cell.Before.ne {a b : Cell} (h : a.Before b) : a ≠ b := by
  rintro rfl
  rcases h with h | ⟨-, h⟩
  · exact Nat.lt_irrefl _ h
  · exact Nat.lt_irrefl _ h

namespace JoinGroup

variable {g : JoinGroup} {rows : List Row}

/-- The cell pairs a row with a sibling that is evaluated as a task. -/
def IsTask (g : JoinGroup) (rows : List Row) (cell : Cell) : Prop :=
  cell.row < rows.length ∧
    ∃ join, g.siblings[cell.sibling]? = some join ∧ join.dispatch.isAsync = true

theorem table_before (g : JoinGroup) (rows : List Row) :
    ((g.table rows).map Prod.fst).Pairwise Cell.Before := by
  rw [table_cells, List.pairwise_flatMap]
  refine ⟨fun i _ => ?_, ?_⟩
  · rw [List.pairwise_map]
    exact List.pairwise_lt_range.imp fun hlt => .inr ⟨rfl, hlt⟩
  · refine List.pairwise_lt_range.imp fun hlt cell hcell cell' hcell' => ?_
    obtain ⟨j, -, rfl⟩ := List.mem_map.mp hcell
    obtain ⟨j', -, rfl⟩ := List.mem_map.mp hcell'
    exact .inl hlt

theorem tasks_before (g : JoinGroup) (rows : List Row) :
    (Progress.tasks (g.table rows)).Pairwise Cell.Before :=
  (g.table_before rows).sublist (List.filter_sublist.map _)

theorem placement_ne_inline (join : Join) :
    placement join ≠ .inline ↔ join.dispatch.isAsync = true := by
  unfold placement
  cases join.dispatch with
  | sync => exact ⟨fun h => absurd rfl h, fun h => by cases h⟩
  | async _ _ => exact ⟨fun _ => rfl, fun _ => by intro h; cases h⟩

theorem mem_tasks_table {cell : Cell} :
    cell ∈ Progress.tasks (g.table rows) ↔ g.IsTask rows cell := by
  unfold Progress.tasks table IsTask
  simp only [List.mem_map, List.mem_filter, List.mem_flatMap, List.mem_range, List.mem_mapIdx,
    decide_eq_true_eq]
  constructor
  · rintro ⟨entry, ⟨⟨i, hi, j, hj, rfl⟩, hplacement⟩, rfl⟩
    refine ⟨hi, g.siblings[j], List.getElem?_eq_getElem hj, ?_⟩
    exact (placement_ne_inline _).mp hplacement
  · rintro ⟨hrow, join, hjoin, hasync⟩
    obtain ⟨hj, rfl⟩ := List.getElem?_eq_some_iff.mp hjoin
    exact ⟨_, ⟨⟨cell.row, hrow, cell.sibling, hj, rfl⟩, (placement_ne_inline _).mpr hasync⟩, rfl⟩

/-! ## The accounts of a group -/

/-- The smallest limit is one that a sibling sets, and no sibling sets a smaller one. -/
theorem limit?_eq_some {limit : Nat} (h : g.limit? = some limit) :
    (∃ join ∈ g.siblings, join.dispatch.limit? = some limit) ∧
      ∀ join ∈ g.siblings, ∀ n, join.dispatch.limit? = some n → limit ≤ n := by
  obtain ⟨hmem, hleast⟩ := List.min?_eq_some_iff.mp h
  refine ⟨List.mem_filterMap.mp hmem, fun join hjoin n hn => ?_⟩
  exact hleast n (List.mem_filterMap.mpr ⟨join, hjoin, hn⟩)

theorem exists_limit (h : ∃ join ∈ g.siblings, ∃ n, join.dispatch.limit? = some n) :
    ∃ limit, g.limit? = some limit := by
  obtain ⟨join, hjoin, n, hn⟩ := h
  have hmem : n ∈ g.siblings.filterMap (·.dispatch.limit?) :=
    List.mem_filterMap.mpr ⟨join, hjoin, hn⟩
  exact Option.isSome_iff_exists.mp (List.isSome_min?_of_mem hmem)

theorem gatedBy_progress {limit : Nat} (h : g.limit? = some limit) (hpos : 0 < limit) :
    (g.progress rows).GatedBy limit := by
  refine ⟨Gate.ofLimit limit, ?_, Nat.max_eq_left hpos, Nat.zero_le _⟩
  unfold progress
  rw [h]
  rfl

/-- How the accounts of a group stand after a course of events: what its gate says, what was handed
over, and how it can go on. -/
structure GateAccounts (g : JoinGroup) (rows : List Row) (trace : List (Event × Effect))
    (p : Progress) (gate : Gate) : Prop where
  held : p.gate = some gate
  /-- A permit is out for every task that was handed over and has not ended. -/
  balance : gate.inFlight + Progress.endings trace = (Progress.submissions trace).length
  within : ∀ join ∈ g.siblings, ∀ n, join.dispatch.limit? = some n → gate.inFlight ≤ n
  /-- Where no task is under way all permits are back. -/
  back : p.queued = [] → p.running = [] → gate.inFlight = 0
  once : (Progress.submissions trace).Nodup
  ordered : (Progress.submissions trace).Pairwise Cell.Before
  own : ∀ cell ∈ Progress.submissions trace, g.IsTask rows cell
  /-- When the dispatcher is through the table, every task of the group was handed over. -/
  complete : p.ahead = [] → ∀ cell, g.IsTask rows cell → cell ∈ Progress.submissions trace
  /-- A task that runs can end, with a permit to give back. -/
  canFinish : ∀ cell ∈ p.running, 0 < gate.inFlight ∧ ∃ q, p.Step (.finish cell) (.work cell) q
  /-- A task that waits can be dropped, with a permit to give back. -/
  canDrop : ∀ cell ∈ p.queued, 0 < gate.inFlight ∧ ∃ q, p.Step (.drop cell) .nothing q
  /-- The dispatcher is never kept waiting when no task is under way. -/
  canDispatch : p.queued = [] → p.running = [] → p.ahead ≠ [] →
    ∃ effect q, p.Step .dispatch effect q
  goesOn : ¬p.Finished → ∃ event effect q, p.Step event effect q
  reachesEnd : ∃ rest last, p.Path rest last ∧ last.Finished
  /-- No course goes on for ever. -/
  bounded : trace.length ≤ 3 * (rows.length * g.siblings.length)

theorem table_length (g : JoinGroup) (rows : List Row) :
    (g.table rows).length = rows.length * g.siblings.length := by
  unfold table
  rw [List.length_flatMap]
  simp

theorem accounts_of_path {limit : Nat} {trace : List (Event × Effect)} {p : Progress}
    (hlimit : g.limit? = some limit) (hpos : 0 < limit)
    (h : (g.progress rows).Path trace p) : ∃ gate, GateAccounts g rows trace p gate := by
  have hpermits := h.permits (g.permits_progress rows)
  obtain ⟨gate, hgate, -, hle⟩ := h.gatedBy (gatedBy_progress hlimit hpos)
  have hcount : gate.inFlight = p.underWay := hpermits gate hgate
  have hbalance : p.underWay + Progress.endings trace = 0 + (Progress.submissions trace).length :=
    h.underWay
  have hsubmitted : Progress.submissions trace ++ Progress.tasks p.ahead =
      Progress.tasks (g.table rows) := h.submissions
  have hbefore := g.tasks_before rows
  rw [← hsubmitted, List.pairwise_append] at hbefore
  refine ⟨gate, ?_⟩
  constructor
  case held => exact hgate
  case balance => omega
  case within =>
    intro join hjoin n hn
    exact Nat.le_trans hle ((limit?_eq_some hlimit).2 join hjoin n hn)
  case back =>
    intro hqueued hrunning
    rw [hcount, Progress.underWay, hqueued, hrunning]
    rfl
  case once => exact hbefore.1.imp Cell.Before.ne
  case ordered => exact hbefore.1
  case own =>
    intro cell hcell
    rw [← mem_tasks_table, ← hsubmitted]
    exact List.mem_append_left _ hcell
  case complete =>
    intro hahead cell hcell
    rw [← mem_tasks_table, ← hsubmitted, hahead, List.mem_append] at hcell
    exact hcell.resolve_right List.not_mem_nil
  case canFinish =>
    intro cell hcell
    have hpos := List.length_pos_of_mem hcell
    rw [hcount, Progress.underWay]
    exact ⟨by omega, Progress.exists_finish hpermits hcell⟩
  case canDrop =>
    intro cell hcell
    have hpos := List.length_pos_of_mem hcell
    rw [hcount, Progress.underWay]
    exact ⟨by omega, Progress.exists_drop hpermits hcell⟩
  case canDispatch => exact Progress.exists_dispatch hpermits
  case goesOn => exact Progress.exists_step hpermits
  case reachesEnd => exact Progress.exists_path_finished hpermits
  case bounded =>
    have hgo := h.toGo
    have hstart : (g.progress rows).toGo = 3 * (rows.length * g.siblings.length) := by
      rw [← table_length]
      rfl
    omega

/-- What the engine does along a schedule is a path to the end of the group. -/
theorem path_course (g : JoinGroup) (rows : List Row) (schedule : Schedule) :
    ∃ trace p, (g.progress rows).Path trace p ∧ p.Finished ∧
      trace.map Prod.snd = (g.progress rows).course schedule := by
  obtain ⟨trace, hpath, heffects⟩ := Progress.path_follow
    (schedule ++ ((g.progress rows).follow schedule).2.conclusion) (g.progress rows)
  obtain ⟨gate, hlast⟩ := Progress.follow_conclusion
    (Progress.follow_permits schedule _ (g.permits_progress rows))
  rw [← Progress.course_eq] at heffects
  rw [Progress.follow_append] at hpath
  dsimp only at hpath
  rw [hlast] at hpath
  exact ⟨trace, _, hpath, ⟨rfl, rfl, rfl⟩, heffects⟩

/-- In a group where some task has a limit and every limit leaves room for a task, the accounts of
the gate are in order after every course of events, and the course that the engine takes along a
schedule is one of these and leads to the end. -/
theorem gate_accounts (g : JoinGroup) (rows : List Row)
    (hlimited : ∃ join ∈ g.siblings, ∃ n, join.dispatch.limit? = some n)
    (hpos : ∀ join ∈ g.siblings, ∀ n, join.dispatch.limit? = some n → 0 < n) :
    (∀ trace p, (g.progress rows).Path trace p → ∃ gate, GateAccounts g rows trace p gate) ∧
      ∀ schedule, ∃ trace p, (g.progress rows).Path trace p ∧ p.Finished ∧
        trace.map Prod.snd = (g.progress rows).course schedule := by
  obtain ⟨limit, hlimit⟩ := exists_limit hlimited
  obtain ⟨join, hjoin, hset⟩ := (limit?_eq_some hlimit).1
  refine ⟨fun trace p hpath => ?_, g.path_course rows⟩
  exact accounts_of_path hlimit (hpos join hjoin limit hset) hpath

/-- A sibling evaluated by the dispatcher between two whose tasks have different limits. -/
def mixedGroup : JoinGroup where
  siblings := [
    ⟨"a", .literal .null, none, .async (some 2) none⟩,
    ⟨"b", .literal .null, none, .sync⟩,
    ⟨"c", .literal .null, none, .async (some 3) (some 0)⟩]

/-- Two permits are out, the smaller limit, and the dispatcher waits for one of them. -/
theorem gate_accounts_mixedGroup :
    (∃ join ∈ mixedGroup.siblings, ∃ n, join.dispatch.limit? = some n) ∧
    (∀ join ∈ mixedGroup.siblings, ∀ n, join.dispatch.limit? = some n → 0 < n) ∧
    ∃ trace p gate, Progress.submissions trace = [⟨0, 0⟩, ⟨0, 2⟩] ∧ p.running = [⟨0, 0⟩] ∧
      p.step? .dispatch = none ∧ gate.inFlight = 2 ∧
      GateAccounts mixedGroup [⟨0, []⟩, ⟨1, []⟩] trace p gate := by
  have hlimited : ∃ join ∈ mixedGroup.siblings, ∃ n, join.dispatch.limit? = some n :=
    ⟨_, List.mem_cons_self, 2, rfl⟩
  have hpos : ∀ join ∈ mixedGroup.siblings, ∀ n, join.dispatch.limit? = some n → 0 < n := by
    simp [mixedGroup, Dispatch.limit?]
  obtain ⟨haccounts, -⟩ := gate_accounts mixedGroup [⟨0, []⟩, ⟨1, []⟩] hlimited hpos
  have hpath : (mixedGroup.progress [⟨0, []⟩, ⟨1, []⟩]).Path
      [(.dispatch, .submit ⟨0, 0⟩ none), (.dispatch, .evaluate ⟨0, 1⟩),
        (.dispatch, .submit ⟨0, 2⟩ (some 0)), (.start ⟨0, 0⟩, .nothing)] _ :=
    .step (Progress.step_of_step? rfl) <| .step (Progress.step_of_step? rfl) <|
      .step (Progress.step_of_step? rfl) <| .step (Progress.step_of_step? rfl) <| .refl _
  obtain ⟨gate, hgate⟩ := haccounts _ _ hpath
  have hheld := hgate.held
  refine ⟨hlimited, hpos, _, _, gate, rfl, rfl, rfl, ?_, hgate⟩
  cases hheld
  rfl

end JoinGroup
end RowQuery
