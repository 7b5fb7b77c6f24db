import RowQuery.Error
import RowQuery.Value.Text

/-!
# Operators on values

`+` joins text or adds numbers, comparisons order numbers and strings, and a boolean position takes
booleans and null. What an operator does not take is a mismatch that names the kinds involved.
-/

set_option autoImplicit false

namespace RowQuery
namespace Value

/-- The sum of two integers; one that does not fit 64 bits is the sum of the nearest doubles. -/
def addInts (a b : Int64) : Value :=
  (int? (a.toInt + b.toInt)).getD
    (.float ((Binary64.ofInt a.toInt).add (Binary64.ofInt b.toInt)))

/-- `left + right`: text if either side is a string, else a sum of numbers. -/
def add (left right : Value) : Except Mismatch Value :=
  match left, right with
  | .string s, _ => .ok (.string (s ++ right.text))
  | _, .string s => .ok (.string (left.text ++ s))
  | .int a, .int b => .ok (addInts a b)
  | _, _ => match left.toFloat?, right.toFloat? with
    | some a, some b => .ok (.float (a.add b))
    | _, _ => .error (.cannotAdd left.kind right.kind)

/-- How two values of comparable kinds stand to each other. Numbers of different kinds are
compared as doubles, and not-a-number compares with none: that is the inner `none`. -/
def order? (left right : Value) : Option (Option Ordering) :=
  match left, right with
  | .int a, .int b => some (some (Ord.compare a b))
  | .string a, .string b => some (some (compareOfLessAndEq a b))
  | _, _ => match left.toFloat?, right.toFloat? with
    | some a, some b => some (a.order b)
    | _, _ => none

/-- `left op right`. Null is only equal to null, booleans are only equal or not, and what compares
with nothing is unequal to everything. -/
def compare (op : Comparison) (left right : Value) : Except Mismatch Bool :=
  if left.isNull || right.isNull then
    if op.isOrdering then .error (.cannotOrder left.kind op right.kind)
    else
      let equal := left.isNull && right.isNull
      .ok (if op = .equal then equal else !equal)
  else match left, right with
    | .bool a, .bool b =>
      if op.isOrdering then .error (.cannotOrderBooleans op)
      else .ok (if op = .equal then a == b else a != b)
    | _, _ => match left.order? right with
      | none => .error (.cannotCompare left.kind op right.kind)
      | some none => .ok (op = .notEqual)
      | some (some ordering) => .ok (op.holds ordering)

/-- The value in boolean position, where null counts as false. -/
def toBool : Value → Except Mismatch Bool
  | .bool b => .ok b
  | .null => .ok false
  | v => .error (.notBoolean v.kind)

end Value
end RowQuery
