import RowQuery.Proofs.Number.Order
import RowQuery.Proofs.Value.Comparisons

/-!
# Three numbers in order

Two integers are compared as they are, and every other pair of numbers by the places of their
doubles. Rounding keeps the order, so a chain of comparisons always puts the places in order. What it
can lose is the difference of two integers that round to one double: where a double of that place
stands in the chain as well, they are equal to it and not to each other.
-/

set_option autoImplicit false

namespace RowQuery

namespace Comparison

@[simp] theorem holds_less_compare (p q : Int) : less.holds (Ord.compare p q) ↔ p < q := by
  rw [holds, beq_iff_eq, Int.compare_eq_lt]

@[simp] theorem holds_lessEqual_compare (p q : Int) :
    lessEqual.holds (Ord.compare p q) ↔ p ≤ q := by
  rw [holds, bne_iff_ne, Int.compare_ne_gt]

@[simp] theorem holds_equal_compare (p q : Int) : equal.holds (Ord.compare p q) ↔ p = q := by
  rw [holds, beq_iff_eq, Int.compare_eq_eq]

end Comparison

/-- This is the nearest double of both integers. -/
def Binary64.NearestToBoth (x : Binary64) (m n : Int64) : Prop :=
  (ofInt m.toInt).equal x ∧ (ofInt n.toInt).equal x

theorem Binary64.order_eq {x y : Binary64} {p q : Int} (hx : x.place? = some p)
    (hy : y.place? = some q) : x.order y = some (Ord.compare p q) := by
  simp [order, hx, hy]

theorem Binary64.nearestToBoth_iff {x : Binary64} {q : Int} (hx : x.place? = some q) (m n : Int64) :
    x.NearestToBoth m n ↔ placeOf m.toInt = q ∧ placeOf n.toInt = q := by
  simp [NearestToBoth, equal, order_eq (place?_ofInt _) hx]

theorem Int64.compare_toInt (m n : Int64) : Ord.compare m.toInt n.toInt = Ord.compare m n := by
  cases h : Ord.compare m n with
  | lt => exact Int.compare_eq_lt.mpr (Int64.lt_iff_toInt_lt.mp (Std.compare_eq_lt.mp h))
  | eq => rw [Std.compare_eq_iff_eq.mp h, Std.compare_self]
  | gt => exact Int.compare_eq_gt.mpr (Int64.lt_iff_toInt_lt.mp (Std.compare_eq_gt.mp h))

namespace Value

/-- A number that can be ordered. -/
def IsNumber (v : Value) : Prop := v.isNumeric ∧ ¬v.isNaN

/-- The place of a number's double. -/
def place? (v : Value) : Option Int := v.toFloat?.bind Binary64.place?

@[simp] theorem place?_int (n : Int64) : (int n).place? = some (Binary64.placeOf n.toInt) := by
  rw [place?, toFloat?, Option.bind_some, Binary64.place?_ofInt]

@[simp] theorem place?_float (x : Binary64) : (float x).place? = x.place? := rfl

theorem IsNumber.exists_place {v : Value} (h : v.IsNumber) : ∃ p, v.place? = some p := by
  obtain ⟨hnumeric, hnan⟩ := h
  cases v with
  | int n => exact ⟨_, place?_int n⟩
  | float x =>
    cases x with
    | nan => exact absurd rfl hnan
    | infinite | finite => exact ⟨_, rfl⟩
  | _ => cases hnumeric

variable {a b c : Value} {p q r : Int}

/-! ## Two numbers -/

theorem compare_ints (op : Comparison) (m n : Int64) :
    compare op (.int m) (.int n) = .ok true ↔ op.holds (Ord.compare m.toInt n.toInt) := by
  rw [compare_eq_ok_iff, Int64.compare_toInt]
  exact Option.some_inj

/-- Numbers that are not both integers are compared as doubles. -/
theorem compare_places (ha : a.place? = some p) (hb : b.place? = some q)
    (hmixed : ¬∃ m n, a = .int m ∧ b = .int n) (op : Comparison) :
    compare op a b = .ok true ↔ op.holds (Ord.compare p q) := by
  obtain ⟨x, hx, hp⟩ := Option.bind_eq_some_iff.mp ha
  obtain ⟨y, hy, hq⟩ := Option.bind_eq_some_iff.mp hb
  have hstanding : a.standing b = .ofOrder? (some (x.order y)) := by
    cases a with
    | int m =>
      cases hx
      cases b with
      | int n => exact absurd ⟨m, n, rfl, rfl⟩ hmixed
      | float => cases hy; rfl
      | _ => cases hy
    | float =>
      cases hx
      cases b with
      | int | float => cases hy; rfl
      | _ => cases hy
    | _ => cases hx
  rw [compare_eq_ok_iff, hstanding, Binary64.order_eq hp hq]
  exact Option.some_inj

/-- A comparison of two numbers, by what they are compared as. -/
theorem integers_or_places (ha : a.place? = some p) (hb : b.place? = some q) (op : Comparison) :
    (∃ m n, a = .int m ∧ b = .int n ∧ p = Binary64.placeOf m.toInt ∧ q = Binary64.placeOf n.toInt ∧
      (compare op a b = .ok true ↔ op.holds (Ord.compare m.toInt n.toInt))) ∨
    (compare op a b = .ok true ↔ op.holds (Ord.compare p q)) := by
  by_cases hints : ∃ m n, a = .int m ∧ b = .int n
  · obtain ⟨m, n, rfl, rfl⟩ := hints
    rw [place?_int, Option.some_inj] at ha hb
    exact .inl ⟨m, n, rfl, rfl, ha.symm, hb.symm, compare_ints op m n⟩
  · exact .inr (compare_places ha hb hints op)

/-- What is not above something has no later place. -/
theorem place_le_of_lessEqual (ha : a.place? = some p) (hb : b.place? = some q)
    (h : compare .lessEqual a b = .ok true) : p ≤ q := by
  rcases integers_or_places ha hb .lessEqual with ⟨m, n, -, -, rfl, rfl, hints⟩ | hplaces
  · exact Binary64.placeOf_mono ((Comparison.holds_lessEqual_compare _ _).mp (hints.mp h))
  · exact (Comparison.holds_lessEqual_compare _ _).mp (hplaces.mp h)

theorem place_eq_of_equal (ha : a.place? = some p) (hb : b.place? = some q)
    (h : compare .equal a b = .ok true) : p = q := by
  rcases integers_or_places ha hb .equal with ⟨m, n, -, -, rfl, rfl, hints⟩ | hplaces
  · rw [(Comparison.holds_equal_compare _ _).mp (hints.mp h)]
  · exact (Comparison.holds_equal_compare _ _).mp (hplaces.mp h)

/-- Two numbers are equal when neither is above the other. -/
theorem equal_iff_lessEqual (ha : a.IsNumber) (hb : b.IsNumber) :
    compare .equal a b = .ok true ↔
      compare .lessEqual a b = .ok true ∧ compare .lessEqual b a = .ok true := by
  obtain ⟨o, ho⟩ : ∃ o, a.standing b = .ranked o := by
    rcases (orderable_iff a b).mp (.inl ⟨ha.1, hb.1⟩) with hlost | hranked
    · exact (((standing_eq_lost_iff a b).mp hlost).2.elim ha.2 hb.2).elim
    · exact hranked
  simp only [compare_eq_ok_iff, standing_swap a b, ho]
  cases o <;> decide

/-! ## Three numbers -/

variable (ha : a.IsNumber) (hb : b.IsNumber) (hc : c.IsNumber)

include ha hb hc

theorem lessEqual_trans_iff (hab : compare .lessEqual a b = .ok true)
    (hbc : compare .lessEqual b c = .ok true) :
    compare .lessEqual a c = .ok true ↔ ¬∃ m n x, a = .int m ∧ b = .float x ∧ c = .int n ∧ n < m ∧
      x.NearestToBoth m n := by
  obtain ⟨p, hp⟩ := ha.exists_place
  obtain ⟨q, hq⟩ := hb.exists_place
  obtain ⟨r, hr⟩ := hc.exists_place
  have hpq := place_le_of_lessEqual hp hq hab
  have hqr := place_le_of_lessEqual hq hr hbc
  by_cases hints : ∃ m n, a = .int m ∧ c = .int n
  · obtain ⟨m, n, rfl, rfl⟩ := hints
    rw [place?_int, Option.some_inj] at hp hr
    cases b with
    | int k =>
      simp only [compare_ints, Comparison.holds_lessEqual_compare] at *
      exact iff_of_true (Int.le_trans hab hbc) nofun
    | float x =>
      rw [compare_ints, Comparison.holds_lessEqual_compare]
      constructor
      · rintro hle ⟨_, _, _, ⟨⟩, -, ⟨⟩, hlt, -⟩
        exact absurd hle (Int.not_le.mpr (Int64.lt_iff_toInt_lt.mp hlt))
      · intro hnone
        by_contra hnot
        -- the integers are the other way round, so all three places are one
        have hlt := Int.not_le.mp hnot
        have hrp := Binary64.placeOf_mono (Int.le_of_lt hlt)
        exact hnone ⟨m, n, x, rfl, rfl, rfl, Int64.lt_iff_toInt_lt.mpr hlt,
          (Binary64.nearestToBoth_iff hq m n).mpr ⟨by omega, by omega⟩⟩
    | _ => cases hq
  · refine iff_of_true ((compare_places hp hr hints _).mpr ?_) ?_
    · exact (Comparison.holds_lessEqual_compare p r).mpr (Int.le_trans hpq hqr)
    · rintro ⟨m, n, x, rfl, -, rfl, -⟩
      exact hints ⟨m, n, rfl, rfl⟩

theorem equal_trans_iff (hab : compare .equal a b = .ok true)
    (hbc : compare .equal b c = .ok true) :
    compare .equal a c = .ok true ↔ ¬∃ m n x, a = .int m ∧ b = .float x ∧ c = .int n ∧ m ≠ n ∧
      x.NearestToBoth m n := by
  obtain ⟨hab, hba⟩ := (equal_iff_lessEqual ha hb).mp hab
  obtain ⟨hbc, hcb⟩ := (equal_iff_lessEqual hb hc).mp hbc
  constructor
  · rintro hac ⟨m, n, x, rfl, -, rfl, hne, -⟩
    rw [compare_ints, Comparison.holds_equal_compare] at hac
    exact hne (Int64.toInt_inj.mp hac)
  · intro hnone
    refine (equal_iff_lessEqual ha hc).mpr
      ⟨(lessEqual_trans_iff ha hb hc hab hbc).mpr ?_, (lessEqual_trans_iff hc hb ha hcb hba).mpr ?_⟩
    · rintro ⟨m, n, x, rfl, rfl, rfl, hlt, hnear⟩
      exact hnone ⟨m, n, x, rfl, rfl, rfl, (Int64.ne_of_lt hlt).symm, hnear⟩
    · rintro ⟨n, m, x, rfl, rfl, rfl, hlt, hnear⟩
      exact hnone ⟨m, n, x, rfl, rfl, rfl, Int64.ne_of_lt hlt, hnear.symm⟩

theorem less_equal_trans_iff (hab : compare .less a b = .ok true)
    (hbc : compare .equal b c = .ok true) :
    compare .less a c = .ok true ↔ ¬∃ m n x, a = .int m ∧ b = .int n ∧ c = .float x ∧
      x.NearestToBoth m n := by
  obtain ⟨p, hp⟩ := ha.exists_place
  obtain ⟨q, hq⟩ := hb.exists_place
  obtain ⟨r, hr⟩ := hc.exists_place
  obtain rfl := place_eq_of_equal hq hr hbc
  by_cases hints : ∃ m n, a = .int m ∧ c = .int n
  · obtain ⟨m, n, rfl, rfl⟩ := hints
    rw [place?_int, Option.some_inj] at hp hr
    refine iff_of_true ?_ nofun
    cases b with
    | int k =>
      simp only [compare_ints, Comparison.holds_less_compare, Comparison.holds_equal_compare] at *
      exact hbc ▸ hab
    | float x =>
      have hplaces := (compare_places (place?_int m) hq nofun .less).mp hab
      rw [Comparison.holds_less_compare] at hplaces
      rw [compare_ints, Comparison.holds_less_compare]
      by_contra hnot
      have hle := Binary64.placeOf_mono (Int.not_lt.mp hnot)
      omega
    | _ => cases hq
  · rw [compare_places hp hr hints, Comparison.holds_less_compare]
    rcases integers_or_places hp hq .less with ⟨m, k, rfl, rfl, rfl, rfl, hless⟩ | hless
    · -- two integers in order, and a float of the place of the second
      have hlt := (Comparison.holds_less_compare _ _).mp (hless.mp hab)
      have hle := Binary64.placeOf_mono (Int.le_of_lt hlt)
      cases c with
      | int n => exact absurd ⟨m, n, rfl, rfl⟩ hints
      | float x =>
        constructor
        · rintro hplaces ⟨_, _, _, ⟨⟩, ⟨⟩, ⟨⟩, hnear⟩
          have hsame := ((Binary64.nearestToBoth_iff hr m k).mp hnear).1
          omega
        · intro hnone
          by_contra hnot
          exact hnone ⟨m, k, x, rfl, rfl, rfl,
            (Binary64.nearestToBoth_iff hr m k).mpr ⟨by omega, rfl⟩⟩
      | _ => cases hr
    · have hlt := (Comparison.holds_less_compare _ _).mp (hless.mp hab)
      refine iff_of_true hlt ?_
      rintro ⟨m, k, x, rfl, rfl, rfl, hnear⟩
      have hsame := ((Binary64.nearestToBoth_iff hr m k).mp hnear).1
      rw [place?_int, Option.some_inj] at hp
      omega

omit ha hb hc

/-- A float, or an integer that is a double itself. -/
def IsExact (v : Value) : Prop := ∀ n, v = .int n → n.toInt.natAbs ≤ 2 ^ 53

/-- No double is nearest to two integers that are doubles themselves. -/
theorem eq_of_nearestToBoth {x : Binary64} {m n : Int64} (h : x.NearestToBoth m n)
    (hm : (int m).IsExact) (hn : (int n).IsExact) : m = n := by
  cases hx : x.place? with
  | none =>
    have hequal := h.1
    rw [Binary64.equal, Binary64.order, Binary64.place?_ofInt, hx] at hequal
    cases hequal
  | some q =>
    obtain ⟨hplace, hplace'⟩ := (Binary64.nearestToBoth_iff hx m n).mp h
    exact Int64.toInt_inj.mp
      (Binary64.placeOf_inj (hm m rfl) (hn n rfl) (hplace.trans hplace'.symm))

/-- Comparisons of numbers are transitive but for two different integers that round to one double:
where that double stands between them, they are equal to it and not to each other, and where it
follows them, the lower one is below the other and equal to it. Integers up to `2 ^ 53` are never
rounded. -/
theorem compare_numbers_trans (ha : a.IsNumber) (hb : b.IsNumber) (hc : c.IsNumber) :
    (compare .lessEqual a b = .ok true → compare .lessEqual b c = .ok true →
      (compare .lessEqual a c = .ok true ↔
        ¬∃ m n x, a = .int m ∧ b = .float x ∧ c = .int n ∧ n < m ∧ x.NearestToBoth m n)) ∧
    (compare .equal a b = .ok true → compare .equal b c = .ok true →
      (compare .equal a c = .ok true ↔
        ¬∃ m n x, a = .int m ∧ b = .float x ∧ c = .int n ∧ m ≠ n ∧ x.NearestToBoth m n)) ∧
    (compare .less a b = .ok true → compare .equal b c = .ok true →
      (compare .less a c = .ok true ↔
        ¬∃ m n x, a = .int m ∧ b = .int n ∧ c = .float x ∧ x.NearestToBoth m n)) ∧
    (a.IsExact → b.IsExact → c.IsExact →
      (compare .lessEqual a b = .ok true → compare .lessEqual b c = .ok true →
        compare .lessEqual a c = .ok true) ∧
      (compare .equal a b = .ok true → compare .equal b c = .ok true →
        compare .equal a c = .ok true) ∧
      (compare .less a b = .ok true → compare .equal b c = .ok true →
        compare .less a c = .ok true)) := by
  refine ⟨lessEqual_trans_iff ha hb hc, equal_trans_iff ha hb hc, less_equal_trans_iff ha hb hc,
    fun hexactA hexactB hexactC => ⟨fun hab hbc => ?_, fun hab hbc => ?_, fun hab hbc => ?_⟩⟩
  · refine (lessEqual_trans_iff ha hb hc hab hbc).mpr ?_
    rintro ⟨m, n, x, rfl, -, rfl, hlt, hnear⟩
    exact Int64.ne_of_lt hlt (eq_of_nearestToBoth hnear hexactA hexactC).symm
  · refine (equal_trans_iff ha hb hc hab hbc).mpr ?_
    rintro ⟨m, n, x, rfl, -, rfl, hne, hnear⟩
    exact hne (eq_of_nearestToBoth hnear hexactA hexactC)
  · refine (less_equal_trans_iff ha hb hc hab hbc).mpr ?_
    rintro ⟨m, n, x, rfl, rfl, -, hnear⟩
    have hlt := (Comparison.holds_less_compare _ _).mp ((compare_ints .less m n).mp hab)
    rw [eq_of_nearestToBoth hnear hexactA hexactB] at hlt
    exact Int.lt_irrefl _ hlt

/-- The double `2 ^ 53` between the two integers that round to it, in their order; and two small
integers with a double. -/
theorem compare_numbers_trans_rounded :
    let lower : Value := .int 9007199254740992
    let upper : Value := .int 9007199254740993
    let double : Value := .float (.ofInt 9007199254740992)
    let two : Value := .float (.ofInt 2)
    ((lower.IsNumber ∧ double.IsNumber ∧ upper.IsNumber) ∧
      compare .lessEqual lower double = .ok true ∧ compare .lessEqual double upper = .ok true ∧
      compare .lessEqual lower upper = .ok true) ∧
    ((int 1).IsNumber ∧ (int 2).IsNumber ∧ two.IsNumber) ∧
      ((int 1).IsExact ∧ (int 2).IsExact ∧ two.IsExact) ∧
      compare .less (.int 1) (.int 2) = .ok true ∧ compare .equal (.int 2) two = .ok true ∧
      compare .less (.int 1) two = .ok true := by
  intro lower upper double two
  have hint : ∀ n, (int n).IsNumber := fun n => ⟨rfl, nofun⟩
  have hfloat : ∀ n, (float (.ofInt n)).IsNumber := fun n => ⟨rfl, by simp⟩
  have hexact : ∀ {k}, k.toInt.natAbs ≤ 2 ^ 53 → (int k).IsExact := fun {k} hk n hn => by
    cases hn
    exact hk
  have hlower : compare .lessEqual lower double = .ok true :=
    (compare_eq_ok_iff ..).mpr (by decide +kernel)
  have hupper : compare .lessEqual double upper = .ok true :=
    (compare_eq_ok_iff ..).mpr (by decide +kernel)
  have hless : compare .less (.int 1) (.int 2) = .ok true :=
    (compare_eq_ok_iff ..).mpr (by decide +kernel)
  have hequal : compare .equal (.int 2) two = .ok true :=
    (compare_eq_ok_iff ..).mpr (by decide +kernel)
  obtain ⟨hlessEqual, -⟩ := compare_numbers_trans (hint _) (hfloat _) (hint 9007199254740993)
  obtain ⟨-, -, -, hsmall⟩ := compare_numbers_trans (hint 1) (hint 2) (hfloat 2)
  have hone : (int 1).IsExact := hexact (by decide)
  have htwo : (int 2).IsExact := hexact (by decide)
  refine ⟨⟨⟨hint _, hfloat _, hint _⟩, hlower, hupper, (hlessEqual hlower hupper).mpr ?_⟩,
    ⟨hint 1, hint 2, hfloat 2⟩, ⟨hone, htwo, nofun⟩, hless, hequal,
    (hsmall hone htwo nofun).2.2 hless hequal⟩
  rintro ⟨_, _, _, ⟨⟩, -, ⟨⟩, hlt, -⟩
  exact absurd hlt (by decide)

/-- With the double `2 ^ 53` and the integers `2 ^ 53` and `2 ^ 53 + 1`, which both round to it, each
of the three laws fails. -/
theorem compare_numbers_not_trans :
    let lower : Value := .int 9007199254740992
    let upper : Value := .int 9007199254740993
    let double : Value := .float (.ofInt 9007199254740992)
    (lower.IsNumber ∧ upper.IsNumber ∧ double.IsNumber) ∧
    (compare .lessEqual upper double = .ok true ∧ compare .lessEqual double lower = .ok true ∧
      compare .lessEqual upper lower = .ok false) ∧
    (compare .equal upper double = .ok true ∧ compare .equal double lower = .ok true ∧
      compare .equal upper lower = .ok false) ∧
    (compare .less lower upper = .ok true ∧ compare .equal upper double = .ok true ∧
      compare .less lower double = .ok false) := by
  intro lower upper double
  refine ⟨⟨⟨rfl, nofun⟩, ⟨rfl, nofun⟩, rfl, by simp [double]⟩, ?_⟩
  simp only [compare_eq_ok_iff]
  decide +kernel

end Value
end RowQuery
