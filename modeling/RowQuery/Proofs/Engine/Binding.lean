import RowQuery.Proofs.Engine.Independence
import RowQuery.Proofs.Join.Failures

/-!
# Binding a row

Binding a row goes through the siblings of a group one by one: each slot either binds its alias
(`JoinGroup.bindSlot`) or is reported (`JoinGroup.bindRow_cons`). So aliases that the group does not
have keep their values, and an alias that only one sibling has gets the value of that one. Of the
failures of a row it makes no difference to the others which of its siblings has them.
-/

set_option autoImplicit false

namespace RowQuery

open Run

namespace JoinGroup

/-- The row with the value of a slot bound, if it has one. -/
def bindSlot (row : Row) (join : Join) : Slot → Row
  | some (.ok v) => row.bind join.aliasName v
  | _ => row

theorem bindRow_cons (row : Row) (join : Join) (rest : List Join) (slot : Slot)
    (slots : List Slot) :
    bindRow row (join :: rest) (slot :: slots) =
      ((bindRow (bindSlot row join slot) rest slots).1,
        (slotFailure row.index join slot).toList ++
          (bindRow (bindSlot row join slot) rest slots).2) := by
  rcases slot with - | (f | v) <;> rfl

theorem index_bindRow (joins : List Join) : ∀ (row : Row) (slots : List Slot),
    (bindRow row joins slots).1.index = row.index := by
  induction joins with
  | nil => exact fun _ _ => rfl
  | cons join rest ih =>
    intro row slots
    cases slots with
    | nil => rfl
    | cons slot slots =>
      rw [bindRow_cons]
      refine (ih _ slots).trans ?_
      rcases slot with - | (f | v) <;> rfl

theorem bindRow_append (joins joins' : List Join) : ∀ (row : Row) {slots : List Slot}
    (slots' : List Slot), joins.length = slots.length →
    bindRow row (joins ++ joins') (slots ++ slots') =
      ((bindRow (bindRow row joins slots).1 joins' slots').1,
        (bindRow row joins slots).2 ++ (bindRow (bindRow row joins slots).1 joins' slots').2) := by
  induction joins with
  | nil =>
    intro row slots slots' hlength
    cases List.length_eq_zero_iff.mp hlength.symm
    rfl
  | cons join rest ih =>
    intro row slots slots' hlength
    cases slots with
    | nil => cases hlength
    | cons slot slots =>
      rw [List.cons_append, List.cons_append, bindRow_cons, bindRow_cons,
        ih _ slots' (Nat.succ.inj hlength), List.append_assoc]

theorem get?_bindRow {name : String} (joins : List Join) : ∀ (row : Row) (slots : List Slot),
    name ∉ joins.map Join.aliasName → (bindRow row joins slots).1.get? name = row.get? name := by
  induction joins with
  | nil => exact fun _ _ _ => rfl
  | cons join rest ih =>
    intro row slots hname
    rw [List.map_cons, List.mem_cons, not_or] at hname
    obtain ⟨hne, hrest⟩ := hname
    cases slots with
    | nil => rfl
    | cons slot slots =>
      have hslot : (bindSlot row join slot).get? name = row.get? name := by
        rcases slot with - | (f | v)
        · rfl
        · rfl
        · exact (row.get?_bind join.aliasName name v).trans (if_neg hne)
      rw [bindRow_cons]
      exact (ih _ slots hrest).trans hslot

/-- An alias that one sibling alone has is bound to the value of that sibling. -/
theorem get?_bindRow_of_mem {slot : Join → Slot} {join : Join} {v : Value}
    (hslot : slot join = some (.ok v)) (joins : List Join) : ∀ row : Row,
    (joins.map Join.aliasName).Nodup → join ∈ joins →
    (bindRow row joins (joins.map slot)).1.get? join.aliasName = some v := by
  induction joins with
  | nil => exact fun _ _ hjoin => absurd hjoin List.not_mem_nil
  | cons first rest ih =>
    intro row hnodup hjoin
    obtain ⟨hfirst, hnodup⟩ := List.nodup_cons.mp hnodup
    rw [List.map_cons, bindRow_cons]
    rcases List.mem_cons.mp hjoin with rfl | hjoin
    · rw [get?_bindRow rest _ _ hfirst, hslot]
      exact (row.get?_bind _ _ v).trans (if_pos rfl)
    · exact ih _ hnodup hjoin

/-! ## The failures of a row -/

variable {env : Environment} {c : Context} (m : Meaning env.host c) (g : JoinGroup) (row : Row)

/-- The failures of a row are those of its siblings. -/
theorem settledRow_failures : (g.settledRow m row).2 =
    g.siblings.filterMap fun join => slotFailure row.index join (some (m.value row join.expr)) := by
  unfold settledRow
  rw [bindRow_failures, List.zipWith_map_right, List.zipWith_self, List.reduceOption,
    List.filterMap_map]
  rfl

theorem settledRow_failures_eq_nil_iff :
    (g.settledRow m row).2 = [] ↔ ∀ join ∈ g.siblings, ∃ v, m.value row join.expr = .ok v := by
  rw [settledRow_failures, List.filterMap_eq_nil_iff]
  refine forall₂_congr fun join _ => ?_
  cases m.value row join.expr <;> simp [slotFailure]

end JoinGroup

theorem Meaning.value_congr {env : Environment} {c : Context} (m : Meaning env.host c)
    {row row' : Row} {e : Expr} (h : Scope.SameNames env.host c row c row' e.names) :
    m.value row e = m.value row' e := by
  have hanswer : (m.value row e).mapError Stop.fault = (m.value row' e).mapError Stop.fault := by
    rw [← m.answer_evaluate, ← m.answer_evaluate]
    exact congrArg Run.answer (Scope.evaluate_congr e h)
  cases hv : m.value row e <;> cases hv' : m.value row' e <;> rw [hv, hv'] at hanswer <;>
    cases hanswer <;> rfl

end RowQuery
