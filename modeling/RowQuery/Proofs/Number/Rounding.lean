import RowQuery.Number.Decimal
import Mathlib.Tactic

/-!
# Which ratios round to a rank

A magnitude rounds to a rank exactly as long as it lies between the two midpoints to the
neighbouring ranks, a midpoint itself only if the rank is even. `Within` states the interval in whole
numbers and `nearestRank_eq` is the half of that fact which reading numbers needs.

Inside a run the ranks step evenly, so a rank is its run and a mantissa, and rounding is division.
The one place where that is not enough is the lowest rank of a run: below it the steps are half as
far, and a ratio there is rounded with the shift of the run below.
-/

set_option autoImplicit false

namespace RowQuery
namespace Binary64

/-! ## Division to the nearest -/

theorem roundHalfEven_eq {num den m : Nat} (hden : 0 < den)
    (hlow : 2 * (m * den) ≤ 2 * num + den) (hhigh : 2 * num ≤ 2 * (m * den) + den)
    (heven : 2 * (m * den) = 2 * num + den ∨ 2 * num = 2 * (m * den) + den → m % 2 = 0) :
    roundHalfEven num den = m := by
  have hdiv : den * (num / den) + num % den = num := Nat.div_add_mod num den
  have hmod : num % den < den := Nat.mod_lt num hden
  -- the quotient is the answer or one less
  have hq : num / den = m ∨ num / den + 1 = m := by
    have hle : num / den ≤ m := by
      by_contra hgt
      have := Nat.mul_le_mul_left den (Nat.succ_le_of_lt (Nat.lt_of_not_le hgt))
      rw [Nat.mul_succ, Nat.mul_comm den m] at this
      omega
    have hge : m ≤ num / den + 1 := by
      by_contra hgt
      have := Nat.mul_le_mul_left den (Nat.succ_le_of_lt (Nat.lt_of_not_le hgt))
      rw [Nat.mul_succ, Nat.mul_succ, Nat.mul_comm den m] at this
      omega
    omega
  unfold roundHalfEven
  rcases hq with hq | hq
  · rw [hq, Nat.mul_comm] at hdiv
    rw [hq]
    dsimp only
    cases hc : compare (2 * (num % den)) den with
    | lt => rfl
    | eq =>
      have htie := Nat.compare_eq_eq.mp hc
      exact if_pos (heven (.inr (by omega)))
    | gt =>
      have hgt := Nat.compare_eq_gt.mp hc
      omega
  · have hm : m * den = den * (num / den) + den := by rw [← hq, Nat.mul_comm, Nat.mul_succ]
    dsimp only
    cases hc : compare (2 * (num % den)) den with
    | lt =>
      have hlt := Nat.compare_eq_lt.mp hc
      omega
    | eq =>
      have htie := Nat.compare_eq_eq.mp hc
      have hodd := heven (.inl (by omega))
      rw [if_neg (by omega)]
      exact hq
    | gt => exact hq

/-! ## Runs and mantissas -/

/-- In one run, the rank after its end included, units are the mantissa times the step. -/
theorem unitsOfRank_eq {run mantissa : Nat} (hle : mantissa ≤ 2 * runLength)
    (hrun : run = 0 ∨ runLength ≤ mantissa) :
    unitsOfRank (run * runLength + mantissa) = mantissa * 2 ^ run := by
  simp only [runLength] at *
  unfold unitsOfRank
  dsimp only [runLength]
  by_cases hend : mantissa = 2 * 0x10000000000000
  · have hq : (run * 0x10000000000000 + mantissa) / 0x10000000000000 = run + 2 := by omega
    have hr : (run * 0x10000000000000 + mantissa) % 0x10000000000000 = 0 := by omega
    rw [hq, hr, if_neg (by omega), Nat.shiftLeft_eq, show run + 2 - 1 = run + 1 from rfl, hend]
    ring
  by_cases hlow : mantissa < 0x10000000000000
  · have hzero : run = 0 := by omega
    subst hzero
    rw [if_pos (by omega)]
    omega
  · have hq : (run * 0x10000000000000 + mantissa) / 0x10000000000000 = run + 1 := by omega
    have hr : 0x10000000000000 + (run * 0x10000000000000 + mantissa) % 0x10000000000000 = mantissa :=
      by omega
    rw [hq, hr, if_neg (by omega), Nat.shiftLeft_eq, show run + 1 - 1 = run from rfl]

theorem exists_mantissa (rank : Nat) : ∃ run mantissa, rank = run * runLength + mantissa ∧
    mantissa < 2 * runLength ∧ (run = 0 ∨ runLength ≤ mantissa) := by
  refine ⟨rank / runLength - 1, rank - (rank / runLength - 1) * runLength, ?_, ?_, ?_⟩
  all_goals simp only [runLength]; omega

/-- The next rank is one step away. -/
theorem unitsOfRank_succ {run mantissa : Nat} (hlt : mantissa < 2 * runLength)
    (hrun : run = 0 ∨ runLength ≤ mantissa) :
    unitsOfRank (run * runLength + mantissa + 1) = (mantissa + 1) * 2 ^ run := by
  rw [Nat.add_assoc]
  exact unitsOfRank_eq hlt (hrun.imp id fun h => Nat.le_succ_of_le h)

/-- So is the rank before, within the run. -/
theorem unitsOfRank_pred {run mantissa : Nat} (hlt : mantissa < 2 * runLength)
    (hrun : run = 0 ∨ runLength < mantissa) :
    unitsOfRank (run * runLength + mantissa - 1) = (mantissa - 1) * 2 ^ run := by
  by_cases hzero : mantissa = 0
  · have hr : run = 0 := by
      rcases hrun with h | h
      · exact h
      · omega
    subst hzero hr
    simp [unitsOfRank]
  · rw [Nat.add_sub_assoc (Nat.pos_of_ne_zero hzero)]
    exact unitsOfRank_eq (by omega) (hrun.imp id fun h => by omega)

/-- Before the lowest rank of a run the steps are half as far. -/
theorem unitsOfRank_pred_lowest (run : Nat) :
    unitsOfRank ((run + 1) * runLength + runLength - 1) = (2 * runLength - 1) * 2 ^ run := by
  have h : (run + 1) * runLength + runLength - 1 = run * runLength + (2 * runLength - 1) := by
    simp only [runLength]; omega
  rw [h]
  exact unitsOfRank_eq (by omega) (.inr (by simp only [runLength]; omega))

/-! ## The interval of a rank -/

/-- `num / den` lies between the midpoints to the ranks beside this one, at a midpoint only if the
rank is even. -/
structure Within (rank num den : Nat) : Prop where
  low : (unitsOfRank (rank - 1) + unitsOfRank rank) * den ≤ 2 * num
  high : 2 * num ≤ (unitsOfRank rank + unitsOfRank (rank + 1)) * den
  odd : rank % 2 = 1 → (unitsOfRank (rank - 1) + unitsOfRank rank) * den ≠ 2 * num ∧
    2 * num ≠ (unitsOfRank rank + unitsOfRank (rank + 1)) * den

/-- The interval is one of ratios, however they are written. -/
theorem Within.congr {rank num den num' den' : Nat} (hden : 0 < den) (hden' : 0 < den')
    (h : num * den' = num' * den) (hw : Within rank num den) : Within rank num' den' := by
  have hnum : 2 * num * den' = 2 * num' * den := by rw [Nat.mul_assoc, h, Nat.mul_assoc]
  have hside : ∀ a : Nat, a * den * den' = a * den' * den := fun a => by ring
  have scale : ∀ a : Nat, (a * den ≤ 2 * num ↔ a * den' ≤ 2 * num') ∧
      (2 * num ≤ a * den ↔ 2 * num' ≤ a * den') := by
    intro a
    constructor
    · calc a * den ≤ 2 * num ↔ a * den * den' ≤ 2 * num * den' :=
            (Nat.mul_le_mul_right_iff hden').symm
        _ ↔ a * den' * den ≤ 2 * num' * den := by rw [hnum, hside]
        _ ↔ a * den' ≤ 2 * num' := Nat.mul_le_mul_right_iff hden
    · calc 2 * num ≤ a * den ↔ 2 * num * den' ≤ a * den * den' :=
            (Nat.mul_le_mul_right_iff hden').symm
        _ ↔ 2 * num' * den ≤ a * den' * den := by rw [hnum, hside]
        _ ↔ 2 * num' ≤ a * den' := Nat.mul_le_mul_right_iff hden
  have hlow := scale (unitsOfRank (rank - 1) + unitsOfRank rank)
  have hhigh := scale (unitsOfRank rank + unitsOfRank (rank + 1))
  refine ⟨hlow.1.mp hw.low, hhigh.2.mp hw.high, fun hodd => ?_⟩
  have hne := hw.odd hodd
  have h1 := hw.low
  have h2 := hw.high
  refine ⟨fun he => hne.1 ?_, fun he => hne.2 ?_⟩
  · exact Nat.le_antisymm h1 (hlow.2.mpr he.ge)
  · exact Nat.le_antisymm h2 (hhigh.1.mpr he.ge)

/-- The exponent of the run that a ratio falls into. -/
theorem log2_div_eq {num den e : Nat} (hden : 0 < den) (hlow : 2 ^ e * den ≤ num)
    (hhigh : num < 2 ^ (e + 1) * den) : Nat.log2 (num / den) = e := by
  have hge : 2 ^ e ≤ num / den := (Nat.le_div_iff_mul_le hden).mpr hlow
  have hlt : num / den < 2 ^ (e + 1) := (Nat.div_lt_iff_lt_mul hden).mpr hhigh
  have hne : num / den ≠ 0 := by
    have := Nat.two_pow_pos e
    omega
  have h1 := (Nat.le_log2 hne).mpr hge
  have h2 := (Nat.log2_lt hne).mpr hlt
  omega

/-- A ratio below the second run is rounded without a shift. -/
theorem log2_div_lt {num den : Nat} (hden : 0 < den) (hhigh : num < 2 ^ 53 * den) :
    Nat.log2 (num / den) - 52 = 0 := by
  by_cases hne : num / den = 0
  · rw [hne]; rfl
  · have := (Nat.log2_lt hne).mpr ((Nat.div_lt_iff_lt_mul hden).mpr hhigh)
    omega

theorem nearestRank_of_shift {num den shift mantissa : Nat}
    (hs : Nat.log2 (num / den) - 52 = shift)
    (hm : roundHalfEven num (den <<< shift) = mantissa) :
    nearestRank num den = shift * runLength + mantissa := by
  unfold nearestRank
  dsimp only
  rw [hs, hm]

/-- Within a run, rounding is division by the step of the run. -/
theorem nearestRank_of_run {run mantissa num den : Nat} (hden : 0 < den)
    (hlt : mantissa < 2 * runLength) (hin : run = 0 ∨ runLength * (2 ^ run * den) ≤ num)
    (hlow : 2 * (mantissa * (2 ^ run * den)) ≤ 2 * num + 2 ^ run * den)
    (hhigh : 2 * num ≤ 2 * (mantissa * (2 ^ run * den)) + 2 ^ run * den)
    (heven : 2 * (mantissa * (2 ^ run * den)) = 2 * num + 2 ^ run * den ∨
      2 * num = 2 * (mantissa * (2 ^ run * den)) + 2 ^ run * den → mantissa % 2 = 0) :
    nearestRank num den = run * runLength + mantissa := by
  have hstep : 0 < 2 ^ run * den := Nat.mul_pos (Nat.two_pow_pos run) hden
  have hbound : num < 2 * runLength * (2 ^ run * den) := by
    have := Nat.mul_le_mul_right (2 ^ run * den) (Nat.succ_le_of_lt hlt)
    rw [Nat.succ_mul] at this
    omega
  refine nearestRank_of_shift ?_ ?_
  · rcases hin with rfl | hin
    · refine log2_div_lt hden ?_
      simpa [runLength] using hbound
    · have hlog : Nat.log2 (num / den) = 52 + run := by
        refine log2_div_eq hden ?_ ?_
        · calc 2 ^ (52 + run) * den = runLength * (2 ^ run * den) := by
                simp only [runLength]; ring
            _ ≤ num := hin
        · calc num < 2 * runLength * (2 ^ run * den) := hbound
            _ = 2 ^ (52 + run + 1) * den := by simp only [runLength]; ring
      omega
  · rw [Nat.shiftLeft_eq, Nat.mul_comm den]
    exact roundHalfEven_eq hstep hlow hhigh heven

/-- Just below a run, rounding with the shorter step still reaches the lowest rank of the run. -/
theorem nearestRank_lowest {run num den : Nat} (hden : 0 < den)
    (hlow : 2 * (2 * runLength * (2 ^ run * den)) ≤ 2 * num + 2 ^ run * den)
    (hhigh : num < 2 * runLength * (2 ^ run * den)) :
    nearestRank num den = (run + 1) * runLength + runLength := by
  have hstep : 0 < 2 ^ run * den := Nat.mul_pos (Nat.two_pow_pos run) hden
  have hlog : Nat.log2 (num / den) = 52 + run := by
    refine log2_div_eq hden ?_ ?_
    · have h52 : 2 ^ (52 + run) * den = runLength * (2 ^ run * den) := by
        simp only [runLength]; ring
      rw [h52]
      simp only [runLength] at *
      omega
    · calc num < 2 * runLength * (2 ^ run * den) := hhigh
        _ = 2 ^ (52 + run + 1) * den := by simp only [runLength]; ring
  have hround : roundHalfEven num (den <<< run) = 2 * runLength := by
    rw [Nat.shiftLeft_eq, Nat.mul_comm den]
    refine roundHalfEven_eq hstep hlow (by omega) fun _ => by simp only [runLength]
  rw [nearestRank_of_shift (by omega) hround]
  ring

/-- A ratio in the interval of a rank rounds to the rank. -/
theorem nearestRank_eq {rank num den : Nat} (hden : 0 < den) (h : Within rank num den) :
    nearestRank num den = rank := by
  obtain ⟨run, mantissa, rfl, hlt, hrun⟩ := exists_mantissa rank
  have hunits := unitsOfRank_eq (Nat.le_of_lt hlt) hrun
  have hparity : (run * runLength + mantissa) % 2 = mantissa % 2 := by
    simp only [runLength]; omega
  -- the midpoints, in steps of the run
  have hhighEq : (unitsOfRank (run * runLength + mantissa) +
      unitsOfRank (run * runLength + mantissa + 1)) * den =
      2 * (mantissa * (2 ^ run * den)) + 2 ^ run * den := by
    rw [hunits, unitsOfRank_succ hlt hrun]
    ring
  have hhigh := hhighEq ▸ h.high
  by_cases hlowest : run ≠ 0 ∧ mantissa = runLength
  · obtain ⟨hne, rfl⟩ := hlowest
    cases run with
    | zero => exact absurd rfl hne
    | succ run =>
      have hlow := h.low
      rw [unitsOfRank_pred_lowest, hunits] at hlow
      have hstep : 2 ^ (run + 1) * den = 2 * (2 ^ run * den) := by rw [pow_succ]; ring
      have hlow' : (4 * runLength - 1) * (2 ^ run * den) ≤ 2 * num := by
        refine Nat.le_trans (Nat.le_of_eq ?_) hlow
        rw [pow_succ]
        simp only [runLength]
        ring
      rw [hstep] at hhigh
      simp only [runLength] at hlow' hhigh
      by_cases hin : runLength * (2 ^ (run + 1) * den) ≤ num
      · refine nearestRank_of_run hden hlt (.inr hin) ?_ ?_ fun _ => by simp only [runLength]
        all_goals rw [hstep]; simp only [runLength]; omega
      · rw [hstep] at hin
        refine nearestRank_lowest hden ?_ ?_
        all_goals simp only [runLength] at hin ⊢; omega
  · -- elsewhere the rank before is one step of the run away as well
    have habove : run = 0 ∨ runLength < mantissa := by
      rcases hrun with hrun | hrun
      · exact .inl hrun
      · by_cases hr : run = 0
        · exact .inl hr
        · have hm : mantissa ≠ runLength := fun hm => hlowest ⟨hr, hm⟩
          exact .inr (by omega)
    have hlowEq : (unitsOfRank (run * runLength + mantissa - 1) +
        unitsOfRank (run * runLength + mantissa)) * den + 2 ^ run * den =
        2 * (mantissa * (2 ^ run * den)) ∨ mantissa = 0 := by
      cases mantissa with
      | zero => exact .inr rfl
      | succ m =>
        rw [unitsOfRank_pred hlt habove, hunits, Nat.add_sub_cancel]
        exact .inl (by ring)
    have hlow : 2 * (mantissa * (2 ^ run * den)) ≤ 2 * num + 2 ^ run * den := by
      have := h.low
      rcases hlowEq with heq | rfl
      · omega
      · omega
    refine nearestRank_of_run hden hlt ?_ hlow hhigh fun htie => ?_
    · rcases habove with hr | hm
      · exact .inl hr
      · right
        have hfits := Nat.mul_le_mul_right (2 ^ run * den) (Nat.succ_le_of_lt hm)
        rw [Nat.succ_mul] at hfits
        omega
    · by_contra hodd
      have hne := h.odd (by omega)
      rw [hhighEq] at hne
      rcases hlowEq with heq | rfl
      · omega
      · omega

end Binary64
end RowQuery
