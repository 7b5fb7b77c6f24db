import RowQuery.Json.Basic
import RowQuery.Number.Scaled

/-!
# `NumberText` — the numbers of JSON documents as they are written

A number keeps its digits until it is known what they are wanted for. In a document a whole number
that fits 64 bits, with or without a sign, is an integer; every other number, `-0` included, is
the double that `Scaled` makes of it.
-/

set_option autoImplicit false

namespace RowQuery
namespace Json

/-- The parts of a number. Without a point there are no digits of a fraction. -/
structure NumberText where
  negative : Bool
  whole : List Char
  fraction : List Char
  exponent : Option Int

namespace NumberText

/-- The whole number that the text is; one with a point or an exponent is none, and minus zero is
no integer either. -/
def integer? (t : NumberText) : Option Int :=
  if t.fraction.isEmpty && t.exponent.isNone then
    match t.negative, digitsValue t.whole with
    | true, 0 => none
    | true, size => some (-size)
    | false, size => some size
  else none

def decimal (t : NumberText) : Decimal :=
  ⟨digitsValue (t.whole ++ t.fraction), t.exponent.getD 0 - t.fraction.length⟩

/-- Whether a whole number fits 64 bits, a negative one with its sign. -/
def fits (n : Int) : Bool := Int64.minValue.toInt ≤ n && n < UInt64.size

/-- The number as a double, if it is not too large for one. -/
def double? (t : NumberText) : Option Json :=
  match (Scaled.ofDigits t.whole t.fraction (t.exponent.getD 0)).toBinary64 t.negative with
  | .finite x => some (.float x)
  | _ => none

def toJson? (t : NumberText) : Option Json :=
  match t.integer?.filter fits with
  | some n => some (.int n)
  | none => t.double?

end NumberText
end Json
end RowQuery
