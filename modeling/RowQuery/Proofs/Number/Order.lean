import RowQuery.Proofs.Number.Notation

/-!
# Rounding keeps the order

Rounding never exchanges two numbers: a greater ratio has the same nearest rank or a later one. It
can make two numbers one, but not two whole numbers up to `2 ^ 53`, which are doubles themselves.
-/

set_option autoImplicit false

namespace RowQuery
namespace Binary64

/-! ## Ratios -/

/-- What is added to the quotient depends on the remainder, and on a tie on the quotient. -/
theorem roundHalfEven_eq_add (num den : Nat) : roundHalfEven num den = num / den +
    (if 2 * (num % den) < den then 0 else if 2 * (num % den) = den then num / den % 2 else 1) := by
  unfold roundHalfEven
  dsimp only
  cases hc : compare (2 * (num % den)) den with
  | lt =>
    have hlt := Nat.compare_eq_lt.mp hc
    dsimp only
    rw [if_pos hlt, Nat.add_zero]
  | eq =>
    have htie := Nat.compare_eq_eq.mp hc
    dsimp only
    split_ifs <;> omega
  | gt =>
    have hgt := Nat.compare_eq_gt.mp hc
    dsimp only
    split_ifs <;> omega

theorem roundHalfEven_mono {num num' : Nat} (den : Nat) (h : num ≤ num') :
    roundHalfEven num den ≤ roundHalfEven num' den := by
  have hdiv := Nat.div_add_mod num den
  have hdiv' := Nat.div_add_mod num' den
  rw [roundHalfEven_eq_add, roundHalfEven_eq_add]
  rcases Nat.lt_or_eq_of_le (Nat.div_le_div_right (c := den) h) with hlt | heq
  · split_ifs <;> omega
  · -- between the same two whole numbers the greater ratio has the greater remainder
    rw [heq] at hdiv ⊢
    have hmod : num % den ≤ num' % den := by omega
    split_ifs <;> omega

/-- A ratio of so many binary digits is not rounded beyond the end of its run, -/
theorem roundHalfEven_le {num den shift : Nat}
    (hs : Nat.log2 (num / den) - 52 ≤ shift) :
    roundHalfEven num (den <<< shift) ≤ 2 * runLength := by
  have hlog : num / den < 2 ^ (53 + shift) :=
    Nat.lt_of_lt_of_le Nat.lt_log2_self (Nat.pow_le_pow_right (by decide) (by omega))
  have hlt : num / (den <<< shift) < 2 * runLength := by
    rw [Nat.shiftLeft_eq, ← Nat.div_div_eq_div_mul, Nat.div_lt_iff_lt_mul (Nat.two_pow_pos shift)]
    calc num / den < 2 ^ (53 + shift) := hlog
      _ = 2 * runLength * 2 ^ shift := by simp only [runLength]; ring
  rw [roundHalfEven_eq_add]
  split_ifs <;> omega

/-- and where digits are dropped it is not rounded below the beginning. -/
theorem le_roundHalfEven {num den shift : Nat} (hs : Nat.log2 (num / den) - 52 = shift + 1) :
    runLength ≤ roundHalfEven num (den <<< (shift + 1)) := by
  have hne : num / den ≠ 0 := by
    intro hzero
    rw [hzero] at hs
    cases hs
  have hlog : 2 ^ (52 + (shift + 1)) ≤ num / den := by
    have hself := Nat.log2_self_le hne
    rwa [show Nat.log2 (num / den) = 52 + (shift + 1) by omega] at hself
  have hle : runLength ≤ num / (den <<< (shift + 1)) := by
    rw [Nat.shiftLeft_eq, ← Nat.div_div_eq_div_mul, Nat.le_div_iff_mul_le (Nat.two_pow_pos _)]
    calc runLength * 2 ^ (shift + 1) = 2 ^ (52 + (shift + 1)) := by simp only [runLength]; ring
      _ ≤ num / den := hlog
  rw [roundHalfEven_eq_add]
  omega

theorem log2_mono {m n : Nat} (h : m ≤ n) : m.log2 ≤ n.log2 := by
  by_cases hm : m = 0
  · rw [hm]
    exact Nat.zero_le _
  · exact (Nat.le_log2 (by omega)).mpr (Nat.le_trans (Nat.log2_self_le hm) h)

/-- A greater ratio rounds to the same rank or a greater one. -/
theorem nearestRank_mono {num num' : Nat} (den : Nat) (h : num ≤ num') :
    nearestRank num den ≤ nearestRank num' den := by
  have hlog := log2_mono (Nat.div_le_div_right (c := den) h)
  unfold nearestRank
  dsimp only
  generalize hs : Nat.log2 (num / den) - 52 = shift
  generalize hs' : Nat.log2 (num' / den) - 52 = shift'
  rcases Nat.lt_or_eq_of_le (show shift ≤ shift' by omega) with hlt | rfl
  · -- the ratios fall into different runs, and the runs are in order
    obtain ⟨k, rfl⟩ : ∃ k, shift' = k + 1 := ⟨shift' - 1, by omega⟩
    have hlow := roundHalfEven_le (Nat.le_of_eq hs)
    have hhigh := le_roundHalfEven hs'
    simp only [runLength] at *
    omega
  · exact Nat.add_le_add_left (roundHalfEven_mono _ h) _

/-- A magnitude that is one of the sequence keeps its rank. -/
theorem nearestRank_unitsOfRank (rank : Nat) : nearestRank (unitsOfRank rank) 1 = rank := by
  have hbefore : unitsOfRank (rank - 1) ≤ unitsOfRank rank :=
    unitsOfRank_strictMono.monotone (Nat.sub_le rank 1)
  have hafter := unitsOfRank_lt_succ rank
  refine nearestRank_eq Nat.one_pos ⟨by omega, by omega, fun hodd => ?_⟩
  have hlt : unitsOfRank (rank - 1) < unitsOfRank rank := unitsOfRank_strictMono (by omega)
  omega

/-! ## Whole numbers -/

/-- The rank nearest to a whole number. -/
def rankOf (n : Nat) : Nat := nearestRank (n * unitsPerOne) 1

theorem rankOf_mono {m n : Nat} (h : m ≤ n) : rankOf m ≤ rankOf n :=
  nearestRank_mono 1 (Nat.mul_le_mul_right _ h)

/-- Up to `2 ^ 53` whole numbers are doubles: such a number has 53 binary digits or is brought to as
many by doubling it. -/
theorem exists_rank {n : Nat} (hn : n ≤ 2 ^ 53) :
    ∃ rank < rankBound, unitsOfRank rank = n * unitsPerOne := by
  by_cases hzero : n = 0
  · subst hzero
    exact ⟨0, by decide, by simp [unitsOfRank]⟩
  have hlow : 2 ^ n.log2 ≤ n := Nat.log2_self_le hzero
  have hhigh : n < 2 ^ (n.log2 + 1) := Nat.lt_log2_self
  -- the doublings that are left to 53 digits; `2 ^ 53` itself has one digit too many
  generalize hd : 52 - n.log2 = doublings
  have hmantissa : runLength ≤ n * 2 ^ doublings ∧ n * 2 ^ doublings ≤ 2 * runLength := by
    by_cases hlog : n.log2 ≤ 52
    · have hsum : n.log2 + doublings = 52 := by omega
      constructor
      · calc runLength = 2 ^ n.log2 * 2 ^ doublings := by rw [← Nat.pow_add, hsum]
          _ ≤ n * 2 ^ doublings := Nat.mul_le_mul_right _ hlow
      · calc n * 2 ^ doublings ≤ 2 ^ (n.log2 + 1) * 2 ^ doublings :=
              Nat.mul_le_mul_right _ (Nat.le_of_lt hhigh)
          _ = 2 * runLength := by
            rw [← Nat.pow_add, Nat.add_right_comm, hsum]
            rfl
    · have hnone : doublings = 0 := by omega
      have hpow : 2 ^ 53 ≤ 2 ^ n.log2 := Nat.pow_le_pow_right (by decide) (by omega)
      subst hnone
      simp only [runLength]
      omega
  have hrank : unitsOfRank ((1074 - doublings) * runLength + n * 2 ^ doublings) =
      n * 2 ^ doublings * 2 ^ (1074 - doublings) :=
    unitsOfRank_eq hmantissa.2 (.inr hmantissa.1)
  refine ⟨(1074 - doublings) * runLength + n * 2 ^ doublings, ?_, hrank.trans ?_⟩
  · have hmantissa := hmantissa.2
    simp only [runLength, rankBound] at *
    omega
  · rw [Nat.mul_assoc, ← Nat.pow_add, show doublings + (1074 - doublings) = 1074 by omega,
      unitsPerOne, Nat.one_shiftLeft]

theorem unitsOfRank_rankOf {n : Nat} (hn : n ≤ 2 ^ 53) :
    unitsOfRank (rankOf n) = n * unitsPerOne ∧ rankOf n < rankBound := by
  obtain ⟨rank, hlt, hrank⟩ := exists_rank hn
  rw [rankOf, ← hrank, nearestRank_unitsOfRank]
  exact ⟨rfl, hlt⟩

theorem rankOf_inj {m n : Nat} (hm : m ≤ 2 ^ 53) (hn : n ≤ 2 ^ 53) (h : rankOf m = rankOf n) :
    m = n := by
  obtain ⟨hunits, -⟩ := unitsOfRank_rankOf hm
  obtain ⟨hunits', -⟩ := unitsOfRank_rankOf hn
  rw [h, hunits'] at hunits
  exact (Nat.eq_of_mul_eq_mul_right unitsPerOne_pos hunits).symm

/-! ## Places of whole numbers -/

/-- Zero and what is too large included, the place of a double is its rank with the sign. -/
theorem place?_ofRank (negative : Bool) (rank : Nat) : (ofRank negative rank).place? =
    some (if negative then -(min rank rankBound : Nat) else (min rank rankBound : Nat) : Int) := by
  unfold ofRank
  split
  · next h =>
    rw [Nat.min_eq_left (Nat.le_of_lt h)]
    rfl
  · next h =>
    rw [Nat.min_eq_right (Nat.le_of_not_lt h)]
    rfl

/-- The place that a whole number is rounded to. -/
def placeOf (n : Int) : Int :=
  if n < 0 then -(min (rankOf n.natAbs) rankBound : Nat) else (min (rankOf n.natAbs) rankBound : Nat)

theorem place?_ofInt (n : Int) : (ofInt n).place? = some (placeOf n) := by
  unfold ofInt ofRatio placeOf
  rw [place?_ofRank]
  simp only [decide_eq_true_eq]
  rfl

theorem placeOf_mono {m n : Int} (h : m ≤ n) : placeOf m ≤ placeOf n := by
  unfold placeOf
  by_cases hm : m < 0
  · by_cases hn : n < 0
    · have hrank := rankOf_mono (show n.natAbs ≤ m.natAbs by omega)
      rw [if_pos hm, if_pos hn]
      omega
    · rw [if_pos hm, if_neg hn]
      omega
  · have hrank := rankOf_mono (show m.natAbs ≤ n.natAbs by omega)
    rw [if_neg hm, if_neg (by omega)]
    omega

/-- Whole numbers up to `2 ^ 53` have places of their own. -/
theorem placeOf_inj {m n : Int} (hm : m.natAbs ≤ 2 ^ 53) (hn : n.natAbs ≤ 2 ^ 53)
    (h : placeOf m = placeOf n) : m = n := by
  obtain ⟨-, hrankM⟩ := unitsOfRank_rankOf hm
  obtain ⟨-, hrankN⟩ := unitsOfRank_rankOf hn
  have hsame : rankOf m.natAbs = rankOf n.natAbs → m.natAbs = n.natAbs := rankOf_inj hm hn
  have hzero : ∀ k ≤ 2 ^ 53, rankOf k = 0 → k = 0 := fun k hk hrank =>
    rankOf_inj hk (Nat.zero_le _) (hrank.trans (nearestRank_eq_zero (by simp) Nat.one_pos).symm)
  have hzeroM := hzero _ hm
  have hzeroN := hzero _ hn
  unfold placeOf at h
  rw [Nat.min_eq_left (Nat.le_of_lt hrankM), Nat.min_eq_left (Nat.le_of_lt hrankN)] at h
  split_ifs at h <;> omega

end Binary64
end RowQuery
