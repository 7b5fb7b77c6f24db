import RowQuery.Number.Decimal

/-!
# `Scaled` — decimals turned into doubles by steps

A significand that fits a 64-bit word and a power of ten make a double in few steps: the
significand becomes the nearest double, and this is multiplied or divided by the nearest double
of the power. Every step rounds, so the result can miss the nearest double (which
`Binary64.ofDecimal` finds) by a few ranks. It is the nearest when the significand is below
`2 ^ 53` and the power at most `10 ^ 22`, since only the last step rounds then.

A decimal with more digits than the significand holds loses the rest: digits left over before the
point only count as places, digits left over after it count for nothing.
-/

set_option autoImplicit false

namespace RowQuery

/-- The magnitude `significand * 10 ^ exponent`, not yet rounded. -/
structure Scaled where
  significand : Nat
  exponent : Int
deriving DecidableEq, Repr

namespace Scaled

/-! ## Digits -/

/-- A significand with digits appended for as long as it fits 64 bits, and the digits left
over. -/
def appendDigits (significand : Nat) : List Char → Nat × List Char
  | [] => (significand, [])
  | c :: rest =>
    let longer := significand * 10 + (c.toNat - '0'.toNat)
    if longer < UInt64.size then appendDigits longer rest else (significand, c :: rest)

/-- The digits before the point, those after it, and a power of ten in one magnitude. A digit
after the point may still fit where one before it did not. -/
def ofDigits (whole fraction : List Char) (exponent : Int) : Scaled :=
  let (significand, uncounted) := appendDigits 0 whole
  let (significand, dropped) := appendDigits significand fraction
  ⟨significand, exponent + uncounted.length - (fraction.length - dropped.length)⟩

/-! ## Powers of ten as doubles

Magnitudes are ranks here, and a rank from `Binary64.rankBound` on is infinite. -/

/-- The largest power of ten that is a finite double. -/
abbrev topPower : Nat := 308

/-- The double nearest to `10 ^ power`, in units. -/
def powerUnits (power : Nat) : Nat :=
  Binary64.unitsOfRank (Binary64.nearestRank (Nat.pow 10 power * Binary64.unitsPerOne) 1)

/-- A double multiplied by the double of a power of ten. -/
def timesPower (rank power : Nat) : Nat :=
  Binary64.nearestRank (Binary64.unitsOfRank rank * powerUnits power) Binary64.unitsPerOne

/-- A double divided by the double of a power of ten. -/
def overPower (rank power : Nat) : Nat :=
  Binary64.nearestRank (Binary64.unitsOfRank rank * Binary64.unitsPerOne) (powerUnits power)

/-- A double divided by the largest power so many times, or until nothing is left of it. -/
def overTopPowers : (times : Nat) → (rank : Nat) → Nat
  | 0, rank => rank
  | _ + 1, 0 => 0
  | times + 1, rank => overTopPowers times (overPower rank topPower)

/-- The rank reached by the steps. Divisions by the largest power come first, until what is left
of the exponent has a power of its own; a multiplication by more than the largest power is
infinite. -/
def rank (s : Scaled) : Nat :=
  let start := Binary64.nearestRank (s.significand * Binary64.unitsPerOne) 1
  match s.exponent with
  | .ofNat e =>
    if start = 0 then 0
    else if topPower < e then Binary64.rankBound
    else timesPower start e
  | .negSucc e =>
    let times := e / topPower
    overPower (overTopPowers times start) (e + 1 - topPower * times)

/-- The double reached by the steps, under the sign given. -/
def toBinary64 (negative : Bool) (s : Scaled) : Binary64 := .ofRank negative s.rank

end Scaled
end RowQuery
