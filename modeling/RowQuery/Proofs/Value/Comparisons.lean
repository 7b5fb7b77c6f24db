import RowQuery.Proofs.Expr.LiteralText
import RowQuery.Value.Operators

/-!
# The six operators on one pair of values

How two values stand to each other has nothing to do with the operator that asks. They cannot be
compared, or are only told apart, or one of them is not-a-number, or one is below, equal to or above
the other; the operator's answer is read off that. So the laws between the operators are laws about
four standings, and to exchange the sides is to reverse the standing.
-/

set_option autoImplicit false

namespace RowQuery

namespace Comparison

/-- The operator that says the same with the sides exchanged. -/
def mirror : Comparison → Comparison
  | .less => .greater
  | .lessEqual => .greaterEqual
  | .greater => .less
  | .greaterEqual => .lessEqual
  | .equal => .equal
  | .notEqual => .notEqual

@[simp] theorem isOrdering_mirror (op : Comparison) : op.mirror.isOrdering = op.isOrdering := by
  cases op <;> rfl

@[simp] theorem mirror_eq_equal_iff (op : Comparison) : op.mirror = .equal ↔ op = .equal := by
  cases op <;> decide

@[simp] theorem mirror_eq_notEqual_iff (op : Comparison) :
    op.mirror = .notEqual ↔ op = .notEqual := by
  cases op <;> decide

@[simp] theorem holds_mirror_swap (op : Comparison) (o : Ordering) :
    op.mirror.holds o.swap = op.holds o := by
  cases op <;> cases o <;> rfl

end Comparison

/-! ## Standings -/

/-- How two values stand to each other. -/
inductive Standing where
  /-- They have nothing in common that could be compared. -/
  | apart
  /-- They are equal or not, and not ordered. -/
  | unranked (equal : Bool)
  /-- They are numbers, and one of them is not-a-number. -/
  | lost
  | ranked (o : Ordering)

namespace Standing

/-- How the second value stands to the first. -/
def swap : Standing → Standing
  | .ranked o => .ranked o.swap
  | s => s

/-- The standing of two values that are neither null nor booleans. -/
def ofOrder? : Option (Option Ordering) → Standing
  | none => .apart
  | some none => .lost
  | some (some o) => .ranked o

@[simp] theorem ofOrder?_none : ofOrder? none = .apart := rfl

@[simp] theorem ofOrder?_ranked (o : Ordering) : ofOrder? (some (some o)) = .ranked o := rfl

/-- Two numbers. -/
theorem ofOrder?_some (order : Option Ordering) :
    ofOrder? (some order) = .lost ∨ ∃ o, ofOrder? (some order) = .ranked o := by
  cases order with
  | none => exact .inl rfl
  | some o => exact .inr ⟨o, rfl⟩

@[simp] theorem ofOrder?_some_eq_lost_iff (order : Option Ordering) :
    ofOrder? (some order) = .lost ↔ order = none := by
  cases order with
  | none => simp [ofOrder?]
  | some o => simp [ofOrder?]

theorem ofOrder?_swap (order : Option (Option Ordering)) :
    ofOrder? (order.map (Option.map Ordering.swap)) = (ofOrder? order).swap := by
  match order with
  | none | some none | some (some o) => rfl

/-- The operator's answer, if it has one. -/
def answer (op : Comparison) : Standing → Option Bool
  | .apart => none
  | .unranked equal =>
    if op.isOrdering then none else some (if op = .equal then equal else !equal)
  | .lost => some (op = .notEqual)
  | .ranked o => some (op.holds o)

@[simp] theorem answer_mirror_swap (op : Comparison) (s : Standing) :
    s.swap.answer op.mirror = s.answer op := by
  cases s with
  | ranked o => simp [swap, answer]
  | _ => simp [swap, answer]

theorem answer_notEqual (s : Standing) : s.answer .notEqual = (s.answer .equal).map (!·) := by
  cases s with
  | ranked o => cases o <;> rfl
  | _ => rfl

/-- The operators that order have an answer for the same standings. -/
theorem exists_answer_iff {op : Comparison} (hop : op.isOrdering) (s : Standing) :
    (∃ b, s.answer op = some b) ↔ s = .lost ∨ ∃ o, s = .ranked o := by
  cases s with
  | unranked equal => simp [answer, hop]
  | _ => simp [answer]

end Standing

theorem Binary64.order_swap (x y : Binary64) : y.order x = (x.order y).map Ordering.swap := by
  unfold order
  cases x.place? with
  | none => cases y.place? <;> rfl
  | some a =>
    cases y.place? with
    | none => rfl
    | some b => simp [Int.compare_swap]

@[simp] theorem Binary64.order_eq_none_iff (x y : Binary64) :
    x.order y = none ↔ x = .nan ∨ y = .nan := by
  cases x <;> cases y <;> simp [order, place?]

@[simp] theorem Binary64.ofInt_ne_nan (n : Int) : ofInt n ≠ .nan := by
  unfold ofInt ofRatio ofRank
  split <;> nofun

namespace Value

def isNaN : Value → Bool
  | .float .nan => true
  | _ => false

@[simp] theorem isNaN_iff (v : Value) : v.isNaN ↔ v = .float .nan := by
  cases v with
  | float x => cases x <;> simp [isNaN]
  | _ => simp [isNaN]

def isString : Value → Bool
  | .string _ => true
  | _ => false

/-- How one value stands to another. -/
def standing : Value → Value → Standing
  | .null, r => .unranked r.isNull
  | _, .null => .unranked false
  | .bool a, .bool b => .unranked (a == b)
  | l, r => .ofOrder? (l.order? r)

theorem standing_of_isNull {l r : Value} (h : (l.isNull || r.isNull) = true) :
    l.standing r = .unranked (l.isNull && r.isNull) := by
  cases l with
  | null => rfl
  | _ =>
    cases r with
    | null => rfl
    | _ => cases h

theorem standing_of_not_isNull {l r : Value} (h : ¬(l.isNull || r.isNull) = true)
    (hbool : ∀ a b, l = .bool a → r = .bool b → False) : l.standing r = .ofOrder? (l.order? r) := by
  cases l with
  | null => exact absurd rfl h
  | bool a =>
    cases r with
    | null => exact absurd rfl h
    | bool b => exact (hbool a b rfl rfl).elim
    | _ => rfl
  | _ =>
    cases r with
    | null => exact absurd rfl h
    | _ => rfl

/-- Every operator reads its answer off the standing, and fails where that has none. -/
theorem compare_eq_ok_iff (op : Comparison) (l r : Value) (b : Bool) :
    compare op l r = .ok b ↔ (l.standing r).answer op = some b := by
  unfold compare
  by_cases hnull : (l.isNull || r.isNull) = true
  · rw [if_pos hnull, standing_of_isNull hnull]
    cases hop : op.isOrdering <;> simp [Standing.answer, hop]
  · rw [if_neg hnull]
    split
    · next a b =>
      show _ ↔ (Standing.unranked (a == b)).answer op = _
      cases hop : op.isOrdering <;> simp [Standing.answer, hop, bne]
    · next hbool =>
      rw [standing_of_not_isNull hnull hbool]
      match l.order? r with
      | none | some none | some (some o) => simp [Standing.answer, Standing.ofOrder?]

/-- Two values that are not both integers or both strings are ordered if they are as doubles. -/
theorem order?_swap (l r : Value) : r.order? l = (l.order? r).map (Option.map Ordering.swap) := by
  cases l with
  | int a =>
    cases r with
    | int b => exact congrArg (some ∘ some) (Std.OrientedOrd.eq_swap (a := b) (b := a))
    | float y => exact congrArg some (Binary64.order_swap _ y)
    | _ => rfl
  | float x =>
    cases r with
    | int | float => exact congrArg some (Binary64.order_swap x _)
    | _ => rfl
  | string s =>
    cases r with
    | string t => exact congrArg (some ∘ some) (Std.OrientedOrd.eq_swap (a := t) (b := s))
    | _ => rfl
  | _ => cases r <;> rfl

theorem standing_swap (l r : Value) : r.standing l = (l.standing r).swap := by
  have hordered : Standing.ofOrder? (r.order? l) = (Standing.ofOrder? (l.order? r)).swap := by
    rw [order?_swap, Standing.ofOrder?_swap]
  cases l with
  | null => cases r <;> rfl
  | bool a =>
    cases r with
    | null => rfl
    | bool b => exact congrArg Standing.unranked Bool.beq_comm
    | _ => exact hordered
  | _ =>
    cases r with
    | null => rfl
    | _ => exact hordered

/-! ## What is compared with what -/

/-- Both values are numbers, or both are strings. -/
def Orderable (l r : Value) : Prop :=
  (l.isNumeric ∧ r.isNumeric) ∨ (l.isString ∧ r.isString)

theorem standing_eq_lost_iff (l r : Value) :
    l.standing r = .lost ↔ (l.isNumeric ∧ r.isNumeric) ∧ (l.isNaN ∨ r.isNaN) := by
  cases l with
  | int a =>
    cases r with
    | float y => simp [standing, order?, toFloat?, isNumeric, isNaN_iff]
    | _ => simp [standing, order?, toFloat?, isNumeric, isNaN]
  | float x =>
    cases r with
    | int | float => simp [standing, order?, toFloat?, isNumeric, isNaN_iff]
    | _ => simp [standing, order?, toFloat?, isNumeric]
  | _ => cases r <;> simp [standing, order?, toFloat?, isNumeric]

theorem orderable_iff (l r : Value) :
    Orderable l r ↔ l.standing r = .lost ∨ ∃ o, l.standing r = .ranked o := by
  cases l with
  | int a =>
    cases r with
    | float y => exact iff_of_true (.inl ⟨rfl, rfl⟩) (Standing.ofOrder?_some _)
    | _ => simp [Orderable, standing, order?, toFloat?, isNumeric, isString]
  | float x =>
    cases r with
    | int | float => exact iff_of_true (.inl ⟨rfl, rfl⟩) (Standing.ofOrder?_some _)
    | _ => simp [Orderable, standing, order?, toFloat?, isNumeric, isString]
  | _ => cases r <;> simp [Orderable, standing, order?, toFloat?, isNumeric, isString]

theorem answer_equal_of_isScalar {l r : Value} (hl : l.IsScalar) (hkind : l.kind = r.kind) :
    (l.standing r).answer .equal = some (l == r) := by
  cases l with
  | null =>
    cases r with
    | null => rfl
    | _ => simp [kind] at hkind
  | bool a =>
    cases r with
    | bool b => rfl
    | _ => simp [kind] at hkind
  | int a =>
    cases r with
    | int b =>
      have h : (Ord.compare a b == .eq) = (a == b) := by
        rw [Bool.eq_iff_iff, beq_iff_eq, beq_iff_eq, Std.compare_eq_iff_eq]
      exact congrArg some h
    | _ => simp [kind] at hkind
  | float x =>
    cases r with
    | float y =>
      show (Standing.ofOrder? (some (x.order y))).answer .equal = some (x.order y == some .eq)
      cases x.order y <;> rfl
    | _ => simp [kind] at hkind
  | string s =>
    cases r with
    | string t =>
      have h : (Ord.compare s t == .eq) = (s == t) := by
        rw [Bool.eq_iff_iff, beq_iff_eq, beq_iff_eq, Std.compare_eq_iff_eq]
      exact congrArg some h
    | _ => simp [kind] at hkind
  | array | object | capability => exact hl.elim

/-- The answers of the operators that order, and of the two that do not, fit together as those of a
linear order: one of below, equal and above is true, and the other operators follow from these. -/
def LinearlyCompared (l r : Value) : Prop :=
  ∃ below same above : Bool,
    compare .less l r = .ok below ∧ compare .equal l r = .ok same ∧
    compare .greater l r = .ok above ∧ [below, same, above].count true = 1 ∧
    compare .lessEqual l r = .ok (below || same) ∧
    compare .greaterEqual l r = .ok (above || same)

theorem linearlyCompared_of_ranked {l r : Value} {o : Ordering} (h : l.standing r = .ranked o) :
    LinearlyCompared l r := by
  have hanswer : ∀ op : Comparison, compare op l r = .ok (op.holds o) := fun op =>
    (compare_eq_ok_iff op l r _).mpr (by rw [h]; rfl)
  refine ⟨_, _, _, hanswer .less, hanswer .equal, hanswer .greater, ?_, ?_, ?_⟩
  · cases o <;> rfl
  · rw [hanswer]
    cases o <;> rfl
  · rw [hanswer]
    cases o <;> rfl

/-- The six operators agree with each other on every pair of values. -/
theorem compare_consistent (l r : Value) :
    (∀ op b, compare op l r = .ok b ↔ compare op.mirror r l = .ok b) ∧
    (∀ b, compare .equal l r = .ok b ↔ compare .notEqual l r = .ok (!b)) ∧
    (∀ op, op.isOrdering → ((∃ b, compare op l r = .ok b) ↔ Orderable l r)) ∧
    (∀ op b, op.isOrdering → compare op l r = .ok b → ¬l.isNaN → ¬r.isNaN →
      LinearlyCompared l r) ∧
    ((l.isNumeric ∧ r.isNumeric) ∧ (l.isNaN ∨ r.isNaN) →
      ∀ op, compare op l r = .ok (decide (op = .notEqual))) ∧
    (l.IsScalar → l.kind = r.kind → compare .equal l r = .ok (l == r)) := by
  have hordering : ∀ op : Comparison, op.isOrdering →
      ((∃ b, compare op l r = .ok b) ↔ Orderable l r) := by
    intro op hop
    simp only [compare_eq_ok_iff]
    rw [Standing.exists_answer_iff hop, orderable_iff]
  refine ⟨fun op b => ?_, fun b => ?_, hordering, fun op b hop hanswer hl hr => ?_, ?_, ?_⟩
  · rw [compare_eq_ok_iff, compare_eq_ok_iff, standing_swap l r, Standing.answer_mirror_swap]
  · rw [compare_eq_ok_iff, compare_eq_ok_iff, Standing.answer_notEqual]
    simp
  · rcases (orderable_iff l r).mp ((hordering op hop).mp ⟨b, hanswer⟩) with hlost | ⟨o, hranked⟩
    · obtain ⟨-, hnan⟩ := (standing_eq_lost_iff l r).mp hlost
      exact (hnan.elim hl hr).elim
    · exact linearlyCompared_of_ranked hranked
  · intro hnan op
    rw [compare_eq_ok_iff, (standing_eq_lost_iff l r).mpr hnan]
    rfl
  · intro hscalar hkind
    rw [compare_eq_ok_iff, answer_equal_of_isScalar hscalar hkind]

/-- One and infinity, not-a-number and one, and the two zeros. -/
theorem compare_consistent_numbers :
    let one : Value := .int 1
    let infinity : Value := .float (.infinite false)
    let zero (negative : Bool) : Value := .float (.finite ⟨negative, 0, by decide⟩)
    (compare .less one infinity = .ok true ∧ LinearlyCompared one infinity) ∧
    (∀ op, compare op (.float .nan) one = .ok (decide (op = .notEqual))) ∧
    (zero true).IsScalar ∧ (zero true).kind = (zero false).kind ∧
      compare .equal (zero true) (zero false) = .ok true := by
  intro one infinity zero
  obtain ⟨-, -, -, hordered, -, -⟩ := compare_consistent one infinity
  obtain ⟨-, -, -, -, hnan, -⟩ := compare_consistent (.float .nan) one
  obtain ⟨-, -, -, -, -, hsame⟩ := compare_consistent (zero true) (zero false)
  have hless : compare .less one infinity = .ok true :=
    (compare_eq_ok_iff ..).mpr (by decide +kernel)
  exact ⟨⟨hless, hordered .less true rfl hless nofun nofun⟩, hnan ⟨⟨rfl, rfl⟩, .inl rfl⟩,
    trivial, rfl, hsame trivial rfl⟩

end Value
end RowQuery
