/-!
# `Binary64` — double-precision numbers as exact data

The representable magnitudes form one increasing sequence that starts at zero, so a finite double
is a sign and a place in that sequence, its *rank*. The rank is what makes the rest short:

* the order of two magnitudes is the order of their ranks;
* the next larger magnitude has the next rank, so a mantissa that rounds up over its last bit
  needs no carry;
* the first rank too large is where infinity stands.

Every magnitude is a whole number of `2 ^ -1074`, here called its *units*. Sums and conversions
are computed in units without error and then rounded once, to the nearest rank, a tie going to
the even one.
-/

set_option autoImplicit false

namespace RowQuery

/-- How many ranks step equally far, which is `2 ^ 52`. -/
abbrev Binary64.runLength : Nat := 0x10000000000000

/-- Ranks are below this bound, the end of the 2047th run; a magnitude that rounds to it or beyond
is infinite. -/
abbrev Binary64.rankBound : Nat := 0x7FF0000000000000

/-- How many units make one: a unit is `2 ^ -1074`. -/
def Binary64.unitsPerOne : Nat := 1 <<< 1074

/-- A finite double. Zero has rank 0 under either sign. -/
structure Finite64 where
  negative : Bool
  rank : Fin Binary64.rankBound
deriving DecidableEq

/-- A double: there is one not-a-number here, since nothing can tell two of them apart. -/
inductive Binary64 where
  | nan
  | infinite (negative : Bool)
  | finite (value : Finite64)
deriving DecidableEq

namespace Binary64

/-! ## Ranks and units -/

/-- The whole number nearest to `num / den`; halfway between two, the even one. -/
def roundHalfEven (num den : Nat) : Nat :=
  let below := num / den
  match compare (2 * (num % den)) den with
  | .lt => below
  | .gt => below + 1
  | .eq => if below % 2 = 0 then below else below + 1

/-- The magnitude of a rank, in units. In the first two runs ranks and units agree; from there on
each run steps twice as far as the run before it. -/
def unitsOfRank (rank : Nat) : Nat :=
  let run := rank / runLength
  if run = 0 then rank else (runLength + rank % runLength) <<< (run - 1)

/-- The rank nearest to `num / den` units. The run is chosen so that the mantissa has 53 bits
(fewer in the lowest run); a mantissa rounded up to 54 bits is the first rank of the next run. -/
def nearestRank (num den : Nat) : Nat :=
  let shift := Nat.log2 (num / den) - 52
  shift * runLength + roundHalfEven num (den <<< shift)

/-- The double of a sign and a rank. -/
def ofRank (negative : Bool) (rank : Nat) : Binary64 :=
  if h : rank < rankBound then .finite ⟨negative, ⟨rank, h⟩⟩ else .infinite negative

/-- The double nearest to `num / den`, under the sign given (so that zero can have one). -/
def ofRatio (negative : Bool) (num den : Nat) : Binary64 :=
  ofRank negative (nearestRank (num * unitsPerOne) den)

/-- The double nearest to a whole number. -/
def ofInt (n : Int) : Binary64 :=
  ofRatio (n < 0) n.natAbs 1

end Binary64

namespace Finite64

/-- The magnitude in units. -/
def units (x : Finite64) : Nat := Binary64.unitsOfRank x.rank

/-- The value in units. -/
def signedUnits (x : Finite64) : Int := if x.negative then -(x.units : Int) else x.units

/-- The place in the order of all values; both zeros have place 0. -/
def place (x : Finite64) : Int := if x.negative then -(x.rank.val : Int) else x.rank.val

/-- The opposite number; zero changes its sign too. -/
def neg (x : Finite64) : Finite64 := { x with negative := !x.negative }

end Finite64

namespace Binary64

/-- The opposite number. -/
def neg : Binary64 → Binary64
  | .nan => .nan
  | .infinite negative => .infinite (!negative)
  | .finite x => .finite x.neg

/-- The sum, rounded once. An exact zero is negative only when both sides are. -/
def add : Binary64 → Binary64 → Binary64
  | .nan, _ => .nan
  | _, .nan => .nan
  | .infinite a, .infinite b => if a = b then .infinite a else .nan
  | .infinite a, .finite _ => .infinite a
  | .finite _, .infinite b => .infinite b
  | .finite x, .finite y =>
    let sum := x.signedUnits + y.signedUnits
    if sum = 0 then ofRank (x.negative && y.negative) 0
    else ofRank (sum < 0) (nearestRank sum.natAbs 1)

/-! ## Order -/

/-- The place in the order of all values; not-a-number has none. -/
def place? : Binary64 → Option Int
  | .nan => none
  | .infinite negative => some (if negative then -(rankBound : Int) else rankBound)
  | .finite x => some x.place

/-- How two doubles compare, if they do: not-a-number compares with nothing. -/
def order (x y : Binary64) : Option Ordering :=
  match x.place?, y.place? with
  | some a, some b => some (compare a b)
  | _, _ => none

/-- Equality of numbers: the two zeros are equal and not-a-number differs from itself. -/
def equal (x y : Binary64) : Bool := x.order y == some .eq

end Binary64
end RowQuery
