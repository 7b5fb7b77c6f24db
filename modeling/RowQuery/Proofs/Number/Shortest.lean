import RowQuery.Proofs.Number.Rounding

/-!
# The shortest decimal reads back

Writing a finite double and reading the decimal gives the double again. A decimal is the ratio
`num / den`, and `ofDecimal_eq` removes the two shortcuts of reading from the way. A point that a
grid offers lies in the interval of the rank by the test that the grid makes, and the grid of 17
digits always has such a point: it steps less far than the ranks do.
-/

set_option autoImplicit false

namespace RowQuery

/-! ## Decimals as ratios -/

namespace Decimal

def num (d : Decimal) : Nat := d.digits * 10 ^ d.exponent.toNat

def den (d : Decimal) : Nat := 10 ^ (-d.exponent).toNat

theorem den_pos (d : Decimal) : 0 < d.den := Nat.pow_pos (by decide)

/-- Digits that are zeros at the end can be counted in the exponent. -/
theorem num_mul_den_shift (digits n : Nat) (exponent : Int) :
    (Decimal.mk (digits * 10 ^ n) exponent).num * (Decimal.mk digits (exponent + n)).den =
      (Decimal.mk digits (exponent + n)).num * (Decimal.mk (digits * 10 ^ n) exponent).den := by
  unfold num den
  dsimp only
  have h : n + exponent.toNat + (-(exponent + n)).toNat =
      (exponent + n).toNat + (-exponent).toNat := by omega
  calc digits * 10 ^ n * 10 ^ exponent.toNat * 10 ^ (-(exponent + n)).toNat
      = digits * 10 ^ (n + exponent.toNat + (-(exponent + n)).toNat) := by
        rw [pow_add, pow_add]; ring
    _ = digits * 10 ^ (exponent + n).toNat * 10 ^ (-exponent).toNat := by
        rw [h, pow_add]; ring

end Decimal

theorem lt_ten_pow_decimalLength (n : Nat) : n < 10 ^ decimalLength n :=
  (Nat.length_toDigits_le_iff (by decide) (Nat.length_toDigits_pos)).mp (Nat.le_refl _)

theorem ten_pow_le_of_decimalLength {n : Nat} (hn : n ≠ 0) : 10 ^ (decimalLength n - 1) ≤ n := by
  by_cases hone : decimalLength n - 1 = 0
  · rw [hone]
    omega
  · by_contra hlt
    have := (Nat.length_toDigits_le_iff (b := 10) (by decide) (Nat.pos_of_ne_zero hone)).mpr
      (Nat.lt_of_not_le hlt)
    unfold decimalLength at *
    omega

/-! ## Reading is one rounding -/

namespace Binary64

theorem unitsPerOne_pos : 0 < unitsPerOne := by
  rw [unitsPerOne, Nat.one_shiftLeft]
  exact Nat.two_pow_pos 1074

theorem nearestRank_eq_zero {num den : Nat} (h : 2 * num ≤ den) (hden : 0 < den) :
    nearestRank num den = 0 := by
  refine nearestRank_eq hden ⟨?_, ?_, fun hodd => absurd hodd (by decide)⟩
  · simp [unitsOfRank]
  · simpa [unitsOfRank] using h

theorem rankBound_le_nearestRank {num den e : Nat} (hden : 0 < den) (he : 2099 ≤ e)
    (h : 2 ^ e * den ≤ num) : rankBound ≤ nearestRank num den := by
  have hq : 2 ^ e ≤ num / den := (Nat.le_div_iff_mul_le hden).mpr h
  have hne : num / den ≠ 0 := Nat.ne_of_gt (Nat.lt_of_lt_of_le (Nat.two_pow_pos e) hq)
  have hlog : e ≤ Nat.log2 (num / den) := (Nat.le_log2 hne).mpr hq
  unfold nearestRank
  dsimp only
  generalize roundHalfEven num _ = mantissa
  simp only [rankBound, runLength]
  omega

/-- A decimal decided by its length alone would round to the same double. -/
theorem ofDecimal_eq (negative : Bool) (d : Decimal) :
    ofDecimal negative d = ofRatio negative d.num d.den := by
  unfold ofDecimal ofRatio
  dsimp only
  have hden := d.den_pos
  split
  next hsmall =>
    -- less than half a unit
    have hhalf : 2 * (d.num * unitsPerOne) ≤ d.den := by
      rcases hsmall with hzero | hsize
      · simp [Decimal.num, hzero]
      · have hpow : 10 ^ decimalLength d.digits * 10 ^ 331 ≤ d.den := by
          rw [← pow_add]
          exact Nat.pow_le_pow_right (by decide) (by omega)
        have hnum : d.num = d.digits := by
          have h0 : d.exponent.toNat = 0 := by omega
          rw [Decimal.num, h0, pow_zero, Nat.mul_one]
        have hunits : 2 * unitsPerOne ≤ 10 ^ 331 := by
          rw [unitsPerOne, Nat.one_shiftLeft]
          decide +kernel
        calc 2 * (d.num * unitsPerOne) = d.digits * (2 * unitsPerOne) := by rw [hnum]; ring
          _ ≤ 10 ^ decimalLength d.digits * 10 ^ 331 :=
            Nat.mul_le_mul (Nat.le_of_lt (lt_ten_pow_decimalLength _)) hunits
          _ ≤ d.den := hpow
    rw [nearestRank_eq_zero hhalf hden]
  next hlarge =>
    obtain ⟨hne, hsize⟩ := not_or.mp hlarge
    split
    next hhuge =>
      have hpow : 10 ^ 330 * d.den ≤ d.num := by
        calc 10 ^ 330 * d.den = 10 ^ (330 + (-d.exponent).toNat) := by rw [pow_add, Decimal.den]
          _ ≤ 10 ^ (decimalLength d.digits - 1 + d.exponent.toNat) :=
            Nat.pow_le_pow_right (by decide) (by omega)
          _ = 10 ^ (decimalLength d.digits - 1) * 10 ^ d.exponent.toNat := pow_add ..
          _ ≤ d.num := Nat.mul_le_mul_right _ (ten_pow_le_of_decimalLength hne)
      have hover : 2 ^ 2099 * d.den ≤ d.num * unitsPerOne := by
        have hunits : 2 ^ 2099 ≤ 10 ^ 330 * unitsPerOne := by
          rw [unitsPerOne, Nat.one_shiftLeft]
          decide +kernel
        calc 2 ^ 2099 * d.den ≤ 10 ^ 330 * unitsPerOne * d.den := Nat.mul_le_mul_right _ hunits
          _ = 10 ^ 330 * d.den * unitsPerOne := Nat.mul_right_comm ..
          _ ≤ d.num * unitsPerOne := Nat.mul_le_mul_right _ hpow
      have hbound := rankBound_le_nearestRank hden (Nat.le_refl _) hover
      rw [ofRank, dif_neg (Nat.not_lt_of_le hbound)]
    next =>
      obtain ⟨digits, exponent⟩ := d
      cases exponent with
      | ofNat e => simp [Decimal.num, Decimal.den, Nat.pow_eq]
      | negSucc e => simp [Decimal.num, Decimal.den, Nat.pow_eq]

/-- The sign is all that becomes of a minus sign. -/
theorem neg_ofDecimal (negative : Bool) (d : Decimal) :
    (ofDecimal negative d).neg = ofDecimal (!negative) d := by
  rw [ofDecimal_eq, ofDecimal_eq, ofRatio, ofRatio]
  unfold ofRank
  split
  · rfl
  · rfl

theorem ofDecimal_ne_nan (negative : Bool) (d : Decimal) : ofDecimal negative d ≠ .nan := by
  rw [ofDecimal_eq, ofRatio]
  unfold ofRank
  split
  · simp
  · simp

/-- A decimal in the interval of a rank reads as that rank. -/
theorem ofDecimal_of_within {rank : Nat} {d : Decimal} (negative : Bool)
    (h : Within rank (d.num * unitsPerOne) d.den) : ofDecimal negative d = ofRank negative rank := by
  rw [ofDecimal_eq, ofRatio, nearestRank_eq d.den_pos h]

/-! ## Ranks are finer than the grid of 17 digits -/

theorem unitsOfRank_ne_zero {rank : Nat} (hrank : rank ≠ 0) : unitsOfRank rank ≠ 0 := by
  obtain ⟨run, mantissa, rfl, hlt, hrun⟩ := exists_mantissa rank
  rw [unitsOfRank_eq (Nat.le_of_lt hlt) hrun]
  refine Nat.mul_ne_zero ?_ (Nat.ne_of_gt (Nat.two_pow_pos run))
  simp only [runLength] at *
  omega

/-- The steps to both neighbours are at least a `2 ^ 53`rd of the magnitude. -/
theorem unitsOfRank_steps {rank : Nat} (hrank : rank ≠ 0) :
    unitsOfRank rank + 0x20000000000000 * unitsOfRank (rank - 1) ≤
        0x20000000000000 * unitsOfRank rank ∧
      unitsOfRank rank + 0x20000000000000 * unitsOfRank rank ≤
        0x20000000000000 * unitsOfRank (rank + 1) := by
  obtain ⟨run, mantissa, rfl, hlt, hrun⟩ := exists_mantissa rank
  have hunits := unitsOfRank_eq (Nat.le_of_lt hlt) hrun
  have hpow := Nat.two_pow_pos run
  have hmantissa : mantissa * 2 ^ run ≤ 0x20000000000000 * 2 ^ run :=
    Nat.mul_le_mul_right _ (Nat.le_of_lt hlt)
  constructor
  · by_cases hlowest : run ≠ 0 ∧ mantissa = runLength
    · obtain ⟨hne, rfl⟩ := hlowest
      cases run with
      | zero => exact absurd rfl hne
      | succ run =>
        rw [unitsOfRank_pred_lowest, hunits, pow_succ]
        simp only [runLength]
        omega
    · have hpos : mantissa ≠ 0 := by
        intro hzero
        simp only [runLength] at *
        omega
      rw [unitsOfRank_pred hlt (by omega), hunits]
      obtain ⟨m, rfl⟩ := Nat.exists_eq_succ_of_ne_zero hpos
      rw [Nat.succ_sub_one, Nat.succ_mul] at *
      omega
  · rw [unitsOfRank_succ hlt hrun, hunits, Nat.add_one_mul mantissa]
    omega

end Binary64

/-! ## Points of a grid -/

namespace Finite64

open Binary64

variable {tie : Tie} {x : Finite64} {position : Int} {n : Nat}

def ReadsBack (x : Finite64) (d : Decimal) : Prop :=
  Within x.rank (d.num * unitsPerOne) d.den

theorem readsBack_shift_iff {digits n : Nat} {exponent : Int} :
    x.ReadsBack ⟨digits * 10 ^ n, exponent⟩ ↔ x.ReadsBack ⟨digits, exponent + n⟩ := by
  have hshift := Decimal.num_mul_den_shift digits n exponent
  constructor
  · refine Within.congr (Decimal.den_pos _) (Decimal.den_pos _) ?_
    rw [Nat.mul_right_comm, hshift, Nat.mul_right_comm]
  · refine Within.congr (Decimal.den_pos _) (Decimal.den_pos _) ?_
    rw [Nat.mul_right_comm, ← hshift, Nat.mul_right_comm]

/-- A decimal that reads back does so by way of rounding. -/
theorem ReadsBack.ofDecimal_eq {d : Decimal} (h : x.ReadsBack d) :
    ofDecimal x.negative d = .finite x := by
  rw [ofDecimal_of_within x.negative h, ofRank, dif_pos x.rank.isLt]

/-- The test of a point, as the grid makes it. -/
def readsBack (x : Finite64) (step : Int) (point : Nat) : Bool :=
  let scale := 10 ^ (-step).toNat
  let lowest := (unitsOfRank (x.rank - 1) + x.units) * scale
  let highest := (x.units + unitsOfRank (x.rank + 1)) * scale
  let place := point * 2 * (unitsPerOne * 10 ^ step.toNat)
  if x.rank.val % 2 = 0 then lowest ≤ place && place ≤ highest
  else lowest < place && place < highest

theorem readsBack_iff (step : Int) (point : Nat) :
    x.readsBack step point = true ↔ x.ReadsBack ⟨point, step⟩ := by
  have hplace : point * 2 * (unitsPerOne * 10 ^ step.toNat) =
      2 * (point * 10 ^ step.toNat * unitsPerOne) := by ring
  unfold readsBack ReadsBack Decimal.num Decimal.den
  dsimp only
  rw [hplace]
  split
  next heven =>
    rw [Bool.and_eq_true, decide_eq_true_iff, decide_eq_true_iff]
    constructor
    · rintro ⟨hlow, hhigh⟩
      exact ⟨hlow, hhigh, fun hodd => by omega⟩
    · intro h
      exact ⟨h.low, h.high⟩
  next hodd =>
    rw [Bool.and_eq_true, decide_eq_true_iff, decide_eq_true_iff]
    constructor
    · rintro ⟨hlow, hhigh⟩
      exact ⟨Nat.le_of_lt hlow, Nat.le_of_lt hhigh, fun _ => ⟨Nat.ne_of_lt hlow, Nat.ne_of_lt hhigh⟩⟩
    · intro h
      have hne := h.odd (by omega)
      exact ⟨Nat.lt_of_le_of_ne h.low hne.1, Nat.lt_of_le_of_ne h.high hne.2⟩

/-- The point that a grid offers, by the tests of the two beside the magnitude. -/
def point? (tie : Tie) (x : Finite64) (step : Int) : Option Nat :=
  let num := x.units * 10 ^ (-step).toNat
  let den := unitsPerOne * 10 ^ step.toNat
  let below := num / den
  let above := below + 1
  let nearer := match compare (2 * (num % den)) den with
    | .lt => below
    | .gt => above
    | .eq => match tie with
      | .up => above
      | .even => if below % 2 = 0 then below else above
  match x.readsBack step below, x.readsBack step above with
  | true, true => some nearer
  | true, false => some below
  | false, true => some above
  | false, false => none

theorem onGrid?_eq : x.onGrid? tie position n = (x.point? tie (position - n)).map fun point =>
    if point = 10 ^ n then ⟨1, position - n + n⟩ else ⟨point, position - n⟩ := by
  unfold onGrid? point? readsBack
  dsimp only
  generalize position - (n : Int) = step
  cases step with
  | ofNat e =>
    have hscale : 10 ^ (-Int.ofNat e).toNat = 1 := by
      rw [Int.ofNat_eq_natCast, Int.toNat_neg_natCast, pow_zero]
    rewrite [hscale]
    rfl
  | negSucc e =>
    have hden : unitsPerOne * 10 ^ (Int.negSucc e).toNat = unitsPerOne := by
      rw [Int.toNat_negSucc, pow_zero, Nat.mul_one]
    rewrite [hden]
    rfl

theorem readsBack_of_point? {step : Int} {point : Nat} (h : x.point? tie step = some point) :
    x.readsBack step point = true := by
  unfold point? at h
  dsimp only at h
  generalize x.units * 10 ^ (-step).toNat / (unitsPerOne * 10 ^ step.toNat) = below at h
  cases hbelow : x.readsBack step below <;> cases habove : x.readsBack step (below + 1) <;>
    rw [hbelow, habove] at h <;> dsimp only at h
  · exact absurd h nofun
  · exact Option.some.inj h ▸ habove
  · exact Option.some.inj h ▸ hbelow
  · -- whichever is nearer
    rw [← Option.some.inj h]
    split
    · exact hbelow
    · exact habove
    · split
      · exact habove
      · split
        · exact hbelow
        · exact habove

theorem point?_isSome {step : Int} {point : Nat} (h : x.readsBack step point = true)
    (hbeside : point = x.units * 10 ^ (-step).toNat / (unitsPerOne * 10 ^ step.toNat) ∨
      point = x.units * 10 ^ (-step).toNat / (unitsPerOne * 10 ^ step.toNat) + 1) :
    ∃ point, x.point? tie step = some point := by
  unfold point?
  dsimp only
  generalize x.units * 10 ^ (-step).toNat / (unitsPerOne * 10 ^ step.toNat) = below at *
  rcases hbeside with rfl | rfl <;> rw [h]
  · cases x.readsBack step (point + 1)
    · exact ⟨_, rfl⟩
    · exact ⟨_, rfl⟩
  · cases x.readsBack step below
    · exact ⟨_, rfl⟩
    · exact ⟨_, rfl⟩

/-- What a grid offers reads back. -/
theorem readsBack_of_onGrid? {d : Decimal} (h : x.onGrid? tie position n = some d) :
    x.ReadsBack d := by
  rw [onGrid?_eq, Option.map_eq_some_iff] at h
  obtain ⟨point, hpoint, rfl⟩ := h
  have hback := (readsBack_iff _ _).mp (readsBack_of_point? hpoint)
  split
  next hend =>
    rw [hend, ← Nat.one_mul (10 ^ n)] at hback
    exact readsBack_shift_iff.mp hback
  next => exact hback

/-- A grid that steps by less than a `10 ^ 16`th of the magnitude has a point that reads back. -/
theorem point?_of_fine {step : Int} (hrank : x.rank.val ≠ 0)
    (hfine : 10 ^ 16 * (unitsPerOne * 10 ^ step.toNat) ≤ x.units * 10 ^ (-step).toNat) :
    ∃ point, x.point? tie step = some point := by
  have hden : 0 < unitsPerOne * 10 ^ step.toNat :=
    Nat.mul_pos unitsPerOne_pos (Nat.pow_pos (by decide))
  have hdiv := Nat.div_add_mod (x.units * 10 ^ (-step).toNat) (unitsPerOne * 10 ^ step.toNat)
  have hmod := Nat.mod_lt (x.units * 10 ^ (-step).toNat) hden
  obtain ⟨hbefore, hafter⟩ := unitsOfRank_steps hrank
  have hbefore := Nat.mul_le_mul_right (10 ^ (-step).toNat) hbefore
  have hafter := Nat.mul_le_mul_right (10 ^ (-step).toNat) hafter
  rw [Nat.add_mul, Nat.mul_assoc, Nat.mul_assoc] at hbefore hafter
  -- a point at most half a step away is inside the interval
  have hnear : ∀ point, 2 * (x.units * 10 ^ (-step).toNat) ≤
        2 * (point * (unitsPerOne * 10 ^ step.toNat)) + unitsPerOne * 10 ^ step.toNat →
      2 * (point * (unitsPerOne * 10 ^ step.toNat)) ≤
        2 * (x.units * 10 ^ (-step).toNat) + unitsPerOne * 10 ^ step.toNat →
      x.readsBack step point = true := by
    intro point hlow hhigh
    have hnum : point * 10 ^ step.toNat * unitsPerOne = point * (unitsPerOne * 10 ^ step.toNat) := by
      ring
    rw [readsBack_iff]
    unfold units at *
    refine ⟨?_, ?_, fun _ => ⟨?_, ?_⟩⟩
    all_goals
      unfold Decimal.num Decimal.den
      dsimp only
      rw [hnum, Nat.add_mul]
      omega
  generalize hbelow : x.units * 10 ^ (-step).toNat / (unitsPerOne * 10 ^ step.toNat) = below at *
  rw [Nat.mul_comm _ below] at hdiv
  by_cases hhalf : 2 * (x.units * 10 ^ (-step).toNat % (unitsPerOne * 10 ^ step.toNat)) ≤
      unitsPerOne * 10 ^ step.toNat
  · exact point?_isSome (hnear below (by omega) (by omega)) (.inl hbelow.symm)
  · refine point?_isSome (hnear (below + 1) ?_ ?_) (.inr (by rw [hbelow]))
    all_goals rw [Nat.add_one_mul below]; omega

/-- If the first of 17 digits is that of the magnitude, the grid is fine enough. -/
theorem fine_of_decimalLength {units places : Nat} {step : Int} (hunits : units ≠ 0)
    (hplaces : unitsPerOne ≤ Nat.pow 10 places)
    (hstep : step = (decimalLength (units * Nat.pow 10 places / unitsPerOne) : Int) - places - 17) :
    10 ^ 16 * (unitsPerOne * 10 ^ step.toNat) ≤ units * 10 ^ (-step).toNat := by
  rw [Nat.pow_eq] at hplaces hstep
  have hle : unitsPerOne ≤ units * 10 ^ places :=
    Nat.le_trans hplaces (Nat.le_mul_of_pos_left _ (Nat.pos_of_ne_zero hunits))
  have hfirst := ten_pow_le_of_decimalLength (Nat.ne_of_gt (Nat.div_pos hle unitsPerOne_pos))
  have hpos : 0 < decimalLength (units * 10 ^ places / unitsPerOne) := Nat.length_toDigits_pos
  generalize decimalLength (units * 10 ^ places / unitsPerOne) = length at *
  have hfirst : 10 ^ (length - 1) * unitsPerOne ≤ units * 10 ^ places :=
    (Nat.le_div_iff_mul_le unitsPerOne_pos).mp hfirst
  have hexp : length - 1 + (-step).toNat = 16 + places + step.toNat := by omega
  refine Nat.le_of_mul_le_mul_right (c := 10 ^ places) ?_ (Nat.pow_pos (by decide))
  calc 10 ^ 16 * (unitsPerOne * 10 ^ step.toNat) * 10 ^ places
      = 10 ^ (16 + places + step.toNat) * unitsPerOne := by rw [pow_add, pow_add]; ring
    _ = 10 ^ (length - 1) * unitsPerOne * 10 ^ (-step).toNat := by rw [← hexp, pow_add]; ring
    _ ≤ units * 10 ^ places * 10 ^ (-step).toNat := Nat.mul_le_mul_right _ hfirst
    _ = units * 10 ^ (-step).toNat * 10 ^ places := Nat.mul_right_comm ..

/-- Every decimal that is found reads back, and one is found on the grid of 17 digits at last. -/
theorem readsBack_shortest (tie : Tie) (x : Finite64) : x.ReadsBack (x.shortest tie) := by
  unfold shortest
  split
  next hzero =>
    unfold ReadsBack
    rw [hzero]
    refine ⟨?_, ?_, fun hodd => absurd hodd (by decide)⟩ <;> simp [unitsOfRank, Decimal.num]
  next hrank =>
    dsimp only
    generalize hposition : (decimalLength (x.units * Nat.pow 10 400 / unitsPerOne) : Int) - 400 =
      position
    cases hfound : (List.range 17).findSome? fun n => x.onGrid? tie position (n + 1) with
    | some d =>
      obtain ⟨n, -, hn⟩ := List.exists_of_findSome?_eq_some hfound
      exact readsBack_of_onGrid? hn
    | none =>
      have hlast := List.findSome?_eq_none_iff.mp hfound 16 (by decide)
      have hplaces : unitsPerOne ≤ Nat.pow 10 400 := by
        rw [unitsPerOne, Nat.one_shiftLeft]
        decide +kernel
      have hfine := fine_of_decimalLength (unitsOfRank_ne_zero hrank) hplaces
        (congrArg (· - (17 : Int)) hposition.symm)
      obtain ⟨point, hpoint⟩ := point?_of_fine hrank hfine
      rw [onGrid?_eq, Option.map_eq_none_iff] at hlast
      have hboth := hpoint.symm.trans hlast
      cases hboth

end Finite64

end RowQuery
