import RowQuery.Number.Style
import RowQuery.Proofs.Number.Shortest

/-!
# Which numbers a literal writes without an exponent

Whether a literal has an exponent is decided by its shortest decimal. It comes to a question about
the number itself: a finite double is written without an exponent if it is zero or lies from
`0.0001` up to `10 ^ 16` (`positional_iff`).

A power of ten lies in the interval of one rank. The decimals of lower ranks are below the power and
those of higher ranks above it, because intervals follow each other (`ReadsBack.lt_of_rank_lt`,
`ReadsBack.ge_of_rank_gt`). In the interval of the rank itself there are decimals on both sides;
there it is the shortest one that matters, and it is the power.
-/

set_option autoImplicit false

namespace RowQuery

/-! ## Ranks in order -/

namespace Binary64

theorem unitsOfRank_lt_succ (rank : Nat) : unitsOfRank rank < unitsOfRank (rank + 1) := by
  by_cases hrank : rank = 0
  · rw [hrank]
    decide
  · obtain ⟨-, hnext⟩ := unitsOfRank_steps hrank
    have hpos := Nat.pos_of_ne_zero (unitsOfRank_ne_zero hrank)
    omega

theorem unitsOfRank_strictMono : StrictMono unitsOfRank :=
  strictMono_nat_of_lt_succ unitsOfRank_lt_succ

end Binary64

/-! ## The first digit of a decimal -/

namespace Decimal

/-- The power of ten that the first digit stands for. -/
def first (d : Decimal) : Int := d.exponent + decimalLength d.digits - 1

/-- A decimal is below a power of ten if its first digit is. -/
theorem lt_pow_iff {d : Decimal} (hd : d.digits ≠ 0) (p q : Nat) :
    d.num * 10 ^ q < 10 ^ p * d.den ↔ d.first < p - q := by
  have hlow := ten_pow_le_of_decimalLength hd
  have hhigh := lt_ten_pow_decimalLength d.digits
  have hlength : 0 < decimalLength d.digits := Nat.length_toDigits_pos
  have hnum : d.num * 10 ^ q = d.digits * 10 ^ (d.exponent.toNat + q) := by
    rw [num, Nat.mul_assoc, pow_add]
  have hden : 10 ^ p * d.den = 10 ^ (p + (-d.exponent).toNat) := by
    rw [den, pow_add]
  rw [hnum, hden]
  unfold first
  constructor
  · intro hlt
    have hpow : 10 ^ (decimalLength d.digits - 1 + (d.exponent.toNat + q)) <
        10 ^ (p + (-d.exponent).toNat) := by
      rw [pow_add]
      exact Nat.lt_of_le_of_lt (Nat.mul_le_mul_right _ hlow) hlt
    have := (Nat.pow_lt_pow_iff_right (by decide)).mp hpow
    omega
  · intro hlt
    calc d.digits * 10 ^ (d.exponent.toNat + q)
        < 10 ^ decimalLength d.digits * 10 ^ (d.exponent.toNat + q) :=
          Nat.mul_lt_mul_of_pos_right hhigh (Nat.pow_pos (by decide))
      _ = 10 ^ (decimalLength d.digits + (d.exponent.toNat + q)) := (pow_add ..).symm
      _ ≤ 10 ^ (p + (-d.exponent).toNat) := Nat.pow_le_pow_right (by decide) (by omega)

end Decimal

/-! ## Beside a power of ten -/

namespace Finite64

open Binary64

variable {x : Finite64} {d : Decimal} {r p q : Nat}

theorem ReadsBack.digits_ne_zero (h : x.ReadsBack d) (hrank : x.rank.val ≠ 0) : d.digits ≠ 0 := by
  intro hzero
  have hlow := h.low
  rw [Decimal.num, hzero, Nat.zero_mul, Nat.zero_mul, Nat.mul_zero] at hlow
  have hpos := Nat.mul_pos (Nat.pos_of_ne_zero (unitsOfRank_ne_zero hrank)) d.den_pos
  rw [Nat.add_mul] at hlow
  omega

/-- `10 ^ p / 10 ^ q` lies inside the interval of the rank. -/
structure Encloses (r p q : Nat) : Prop where
  low : (unitsOfRank (r - 1) + unitsOfRank r) * 10 ^ q < 2 * (10 ^ p * unitsPerOne)
  high : 2 * (10 ^ p * unitsPerOne) < (unitsOfRank r + unitsOfRank (r + 1)) * 10 ^ q

theorem ReadsBack.lt_of_rank_lt (h : x.ReadsBack d) (hr : Encloses r p q) (hlt : x.rank.val < r) :
    d.num * 10 ^ q < 10 ^ p * d.den := by
  have hmono := unitsOfRank_strictMono.monotone
  have hsum : unitsOfRank x.rank + unitsOfRank (x.rank + 1) ≤ unitsOfRank (r - 1) + unitsOfRank r :=
    Nat.add_le_add (hmono (by omega)) (hmono (by omega))
  refine Nat.lt_of_mul_lt_mul_left (a := 2 * unitsPerOne) ?_
  calc 2 * unitsPerOne * (d.num * 10 ^ q) = 2 * (d.num * unitsPerOne) * 10 ^ q := by ring
    _ ≤ (unitsOfRank (r - 1) + unitsOfRank r) * d.den * 10 ^ q :=
      Nat.mul_le_mul_right _ (Nat.le_trans h.high (Nat.mul_le_mul_right _ hsum))
    _ = (unitsOfRank (r - 1) + unitsOfRank r) * 10 ^ q * d.den := by ring
    _ < 2 * (10 ^ p * unitsPerOne) * d.den := Nat.mul_lt_mul_of_pos_right hr.low d.den_pos
    _ = 2 * unitsPerOne * (10 ^ p * d.den) := by ring

theorem ReadsBack.ge_of_rank_gt (h : x.ReadsBack d) (hr : Encloses r p q) (hgt : r < x.rank.val) :
    10 ^ p * d.den ≤ d.num * 10 ^ q := by
  have hmono := unitsOfRank_strictMono.monotone
  have hsum : unitsOfRank r + unitsOfRank (r + 1) ≤ unitsOfRank (x.rank - 1) + unitsOfRank x.rank :=
    Nat.add_le_add (hmono (by omega)) (hmono (by omega))
  have hpos : 0 < 2 * unitsPerOne := Nat.mul_pos (by decide) unitsPerOne_pos
  refine (Nat.mul_le_mul_left_iff hpos).mp ?_
  calc 2 * unitsPerOne * (10 ^ p * d.den) = 2 * (10 ^ p * unitsPerOne) * d.den := by ring
    _ ≤ (unitsOfRank r + unitsOfRank (r + 1)) * 10 ^ q * d.den :=
      Nat.mul_le_mul_right _ (Nat.le_of_lt hr.high)
    _ = (unitsOfRank r + unitsOfRank (r + 1)) * d.den * 10 ^ q := by ring
    _ ≤ 2 * (d.num * unitsPerOne) * 10 ^ q :=
      Nat.mul_le_mul_right _ (Nat.le_trans (Nat.mul_le_mul_right _ hsum) h.low)
    _ = 2 * unitsPerOne * (d.num * 10 ^ q) := by ring

/-- The shortest decimal of a double is below a power of ten if the double comes before the one
whose shortest decimal is the power. -/
theorem first_lt_iff {tie : Tie} (hr : Encloses r p q)
    (hat : x.rank.val = r → (x.shortest tie).first = p - q) (hrank : x.rank.val ≠ 0) :
    (x.shortest tie).first < p - q ↔ x.rank.val < r := by
  have hback := readsBack_shortest tie x
  rcases Nat.lt_trichotomy x.rank.val r with hlt | heq | hgt
  · have hfirst := (Decimal.lt_pow_iff (hback.digits_ne_zero hrank) p q).mp
      (hback.lt_of_rank_lt hr hlt)
    exact iff_of_true hfirst hlt
  · rw [hat heq]
    exact iff_of_false (lt_irrefl _) (Nat.not_lt_of_le heq.ge)
  · have hfirst := (Decimal.lt_pow_iff (hback.digits_ne_zero hrank) p q).not.mp
      (Nat.not_lt_of_le (hback.ge_of_rank_gt hr hgt))
    exact iff_of_false hfirst (Nat.lt_asymm hgt)

/-- The rank of `10 ^ 16`. -/
def highRank : Fin rankBound := ⟨0x4341c37937e08000, by decide⟩

/-- The rank nearest to `0.0001`; its magnitude is a little above that. -/
def lowRank : Fin rankBound := ⟨0x3f1a36e2eb1c432d, by decide⟩

theorem encloses_highRank : Encloses highRank 16 0 := by
  constructor <;> decide +kernel

theorem encloses_lowRank : Encloses lowRank 0 4 := by
  constructor <;> decide +kernel

theorem first_of_highRank (h : x.rank = highRank) : (x.shortest .up).first = 16 := by
  obtain ⟨negative, rank⟩ := x
  subst h
  cases negative <;> decide +kernel

theorem first_of_lowRank (h : x.rank = lowRank) : (x.shortest .up).first = -4 := by
  obtain ⟨negative, rank⟩ := x
  subst h
  cases negative <;> decide +kernel

/-- The number is zero, or its magnitude is from `0.0001` up to `10 ^ 16`. -/
def IsModerate (x : Finite64) : Prop :=
  x.units = 0 ∨ (unitsPerOne ≤ 10 ^ 4 * x.units ∧ x.units < 10 ^ 16 * unitsPerOne)

theorem rank_lt_highRank_iff : x.rank.val < highRank ↔ x.units < 10 ^ 16 * unitsPerOne := by
  have hunits : unitsOfRank highRank = 10 ^ 16 * unitsPerOne := by decide +kernel
  rw [← hunits]
  exact unitsOfRank_strictMono.lt_iff_lt.symm

theorem rank_lt_lowRank_iff : x.rank.val < lowRank ↔ 10 ^ 4 * x.units < unitsPerOne := by
  have hbelow : 10 ^ 4 * unitsOfRank (lowRank - 1) < unitsPerOne := by decide +kernel
  have habove : unitsPerOne ≤ 10 ^ 4 * unitsOfRank lowRank := by decide +kernel
  have hmono := unitsOfRank_strictMono.monotone
  constructor
  · intro hlt
    have hle := Nat.mul_le_mul_left (10 ^ 4) (hmono (Nat.le_sub_one_of_lt hlt))
    exact Nat.lt_of_le_of_lt hle hbelow
  · intro hlt
    by_contra hge
    have hle := Nat.mul_le_mul_left (10 ^ 4) (hmono (Nat.le_of_not_lt hge))
    exact absurd hlt (Nat.not_lt_of_le (Nat.le_trans habove hle))

/-- A literal is written without an exponent if the number is moderate. -/
theorem positional_iff :
    NumberStyle.literal.positional (x.shortest .up).first = true ↔ x.IsModerate := by
  show (decide (-4 ≤ (x.shortest .up).first) && decide ((x.shortest .up).first < 16)) = true ↔ _
  rw [Bool.and_eq_true, decide_eq_true_iff, decide_eq_true_iff]
  unfold IsModerate
  by_cases hrank : x.rank.val = 0
  · have hzero : x.units = 0 := by
      unfold units
      rw [hrank]
      rfl
    have hshortest : x.shortest .up = ⟨0, 0⟩ := by
      unfold shortest
      exact if_pos hrank
    rw [hshortest]
    exact iff_of_true (by decide) (.inl hzero)
  · have hne : x.units ≠ 0 := unitsOfRank_ne_zero hrank
    have hhigh : (x.shortest .up).first < 16 ↔ x.units < 10 ^ 16 * unitsPerOne := by
      rw [← rank_lt_highRank_iff]
      exact first_lt_iff encloses_highRank (fun h => first_of_highRank (Fin.ext h)) hrank
    have hlow : (x.shortest .up).first < -4 ↔ 10 ^ 4 * x.units < unitsPerOne := by
      rw [← rank_lt_lowRank_iff]
      exact first_lt_iff encloses_lowRank (fun h => first_of_lowRank (Fin.ext h)) hrank
    rw [or_iff_right hne, hhigh, ← not_lt, hlow, not_lt]

end Finite64
end RowQuery
