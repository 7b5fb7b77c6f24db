import RowQuery.Number.Decimal

/-!
# `NumberStyle` — how the digits of a double are laid out

Three places write doubles, each with its own layout of the same shortest digits: `plain` where
text is joined, `literal` in query text, `json` in documents. What they decide differently is one
record.
-/

set_option autoImplicit false

namespace RowQuery

/-- The layout decisions for finite doubles. -/
structure NumberStyle where
  /-- Whether a number whose first digit stands for `10 ^ e` is written without an exponent. -/
  positional : (e : Int) → Bool
  /-- Whether a whole number ends in `.0`. -/
  pointAlways : Bool
  /-- Whether a positive exponent has a sign. -/
  plusSign : Bool
  tie : Tie

namespace NumberStyle

/-- Joined text: never an exponent, and whole numbers have no point. -/
def plain : NumberStyle where
  positional _ := true
  pointAlways := false
  plusSign := false
  tie := .up

/-- A literal of query text: positional from `0.0001` up to `10 ^ 16`. -/
def literal : NumberStyle where
  positional e := -4 ≤ e && e < 16
  pointAlways := true
  plusSign := false
  tie := .up

/-- A number of a JSON document: positional from `0.00001` up to `10 ^ 16`. -/
def json : NumberStyle where
  positional e := -5 ≤ e && e < 16
  pointAlways := true
  plusSign := true
  tie := .even

private def zeros (n : Nat) : String := String.ofList (List.replicate n '0')

/-- Digits and a decimal point where the exponent puts it. -/
def layPositional (style : NumberStyle) (d : Decimal) : String :=
  let digits := Nat.toDigits 10 d.digits
  match d.exponent with
  | .ofNat e => String.ofList digits ++ zeros e ++ (if style.pointAlways then ".0" else "")
  | .negSucc e =>
    let places := e + 1
    if places < digits.length then
      let whole := digits.length - places
      String.ofList (digits.take whole) ++ "." ++ String.ofList (digits.drop whole)
    else "0." ++ zeros (places - digits.length) ++ String.ofList digits

/-- One digit, the others after a point, and the exponent of the first. -/
def layScientific (style : NumberStyle) (d : Decimal) (e : Int) : String :=
  let mantissa := match Nat.toDigits 10 d.digits with
    | [] => ""
    | [c] => String.singleton c
    | c :: rest => String.singleton c ++ "." ++ String.ofList rest
  mantissa ++ "e" ++ (if style.plusSign && 0 ≤ e then "+" else "") ++ toString e

def write (style : NumberStyle) (x : Finite64) : String :=
  let d := x.shortest style.tie
  let e := d.exponent + decimalLength d.digits - 1
  (if x.negative then "-" else "") ++
    if style.positional e then style.layPositional d else style.layScientific d e

/-- The text of any double where not-a-number and infinities have names. -/
def writeAll (style : NumberStyle) : Binary64 → String
  | .nan => "NaN"
  | .infinite negative => if negative then "-inf" else "inf"
  | .finite x => style.write x

end NumberStyle
end RowQuery
