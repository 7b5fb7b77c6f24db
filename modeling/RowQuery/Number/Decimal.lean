import RowQuery.Number.Binary64

/-!
# `Decimal` — doubles read from decimals and written with the fewest digits

Reading is one rounding of the exact ratio. Writing looks for the coarsest decimal grid on which
some point rounds back to the number: of 1, 2, … 17 digits, the first grid that has such a point
wins, and it is enough to try the number's two neighbours on that grid. Of two points the nearer
is taken; when both are equally near, `Tie` says which.
-/

set_option autoImplicit false

namespace RowQuery

/-- The number `digits * 10 ^ exponent`. -/
structure Decimal where
  digits : Nat
  exponent : Int
deriving DecidableEq, Repr

/-- Which of two equally near decimals is written. -/
inductive Tie where
  /-- The larger one. -/
  | up
  /-- The one whose last digit is even. -/
  | even
deriving DecidableEq

/-- The number that ASCII digits name. -/
def digitsValue (digits : List Char) : Nat :=
  digits.foldl (fun n c => n * 10 + (c.toNat - '0'.toNat)) 0

/-- How many decimal digits a number has (zero has one). -/
def decimalLength (n : Nat) : Nat := (Nat.toDigits 10 n).length

namespace Binary64

/-- The double nearest to a decimal. Decimals far outside the range of doubles are decided by
their length alone, which keeps the powers of ten small. -/
def ofDecimal (negative : Bool) (d : Decimal) : Binary64 :=
  let size : Int := decimalLength d.digits + d.exponent
  if d.digits = 0 ∨ size < -330 then ofRank negative 0
  else if 330 < size then .infinite negative
  else match d.exponent with
    | .ofNat e => ofRatio negative (d.digits * Nat.pow 10 e) 1
    | .negSucc e => ofRatio negative d.digits (Nat.pow 10 (e + 1))

end Binary64

namespace Finite64

/-- The point of an `n`-digit grid that reads back as the magnitude, if the grid has one.
`position` is the number of digits before the point, so the grid steps by
`10 ^ (position - n)`. A point halfway to the next magnitude reads back only when the rank is
even. -/
def onGrid? (tie : Tie) (x : Finite64) (position : Int) (n : Nat) : Option Decimal :=
  let rank := x.rank.val
  let step := position - n
  -- the magnitude in steps is `num / den`; `scale` is the factor from units to `num`
  let (scale, den) : Nat × Nat := match step with
    | .ofNat e => (1, Binary64.unitsPerOne * Nat.pow 10 e)
    | .negSucc e => (Nat.pow 10 (e + 1), Binary64.unitsPerOne)
  let num := x.units * scale
  let lowest := (Binary64.unitsOfRank (rank - 1) + x.units) * scale
  let highest := (x.units + Binary64.unitsOfRank (rank + 1)) * scale
  let readsBack (point : Nat) : Bool :=
    let place := point * 2 * den
    if rank % 2 = 0 then lowest ≤ place && place ≤ highest else lowest < place && place < highest
  let below := num / den
  let above := below + 1
  let nearer := match compare (2 * (num % den)) den with
    | .lt => below
    | .gt => above
    | .eq => match tie with
      | .up => above
      | .even => if below % 2 = 0 then below else above
  let point? := match readsBack below, readsBack above with
    | true, true => some nearer
    | true, false => some below
    | false, true => some above
    | false, false => none
  point?.map fun point =>
    -- only a one-digit grid can reach its own upper end
    if point = Nat.pow 10 n then ⟨1, step + n⟩ else ⟨point, step⟩

/-- The decimal with the fewest digits that reads back as the magnitude; zero is written with
one digit. -/
def shortest (tie : Tie) (x : Finite64) : Decimal :=
  if x.rank.val = 0 then ⟨0, 0⟩
  else
    -- every magnitude has its first digit within 400 places after the point
    let position : Int := decimalLength (x.units * Nat.pow 10 400 / Binary64.unitsPerOne) - 400
    ((List.range 17).findSome? fun n => x.onGrid? tie position (n + 1)).getD ⟨0, 0⟩

end Finite64
end RowQuery
