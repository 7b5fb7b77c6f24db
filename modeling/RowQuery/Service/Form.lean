import RowQuery.Text.Utf8
import RowQuery.Value.Basic

/-!
# Form bodies

A form body (`application/x-www-form-urlencoded`) is a list of `name=value` pairs between `&`. A
plus sign stands for a space and `%` with two hexadecimal digits for a byte; a `%` without them
stands for itself.
-/

set_option autoImplicit false

namespace RowQuery
namespace Form

/-- The value of a hexadecimal digit, given as a byte. -/
def hexValue? (byte : UInt8) : Option UInt8 :=
  let c := Char.ofNat byte.toNat
  if c.isDigit then some (byte - 48)
  else if 'a' ≤ c && c ≤ 'f' then some (byte - 87)
  else if 'A' ≤ c && c ≤ 'F' then some (byte - 55)
  else none

/-- The byte that two hexadecimal digits name. -/
def byteOfHex? (high low : UInt8) : Option UInt8 :=
  match hexValue? high, hexValue? low with
  | some high, some low => some (high * 16 + low)
  | _, _ => none

/-- The bytes with a space for every plus sign. -/
def plusToSpace (bytes : List UInt8) : List UInt8 :=
  bytes.map fun byte => if byte = 43 then 32 else byte

/-- The bytes that escapes stand for; a percent sign without two digits stays. -/
def percentDecode : List UInt8 → List UInt8
  | 37 :: high :: low :: rest =>
    match byteOfHex? high low with
    | some byte => byte :: percentDecode rest
    | none => 37 :: percentDecode (high :: low :: rest)
  | byte :: rest => byte :: percentDecode rest
  | [] => []

def decodePart (part : List Char) : String :=
  decodeUtf8 (percentDecode (plusToSpace (encodeUtf8 (String.ofList part))))

/-- The pairs of a body. Empty pieces are left out, and a piece without `=` has an empty value. -/
def pairs (body : String) : List (String × String) :=
  ((body.toList.splitOn '&').filter (!·.isEmpty)).map fun piece =>
    (decodePart (piece.takeWhile (· != '=')), decodePart ((piece.dropWhile (· != '=')).drop 1))

def decode (body : String) : Value :=
  .object (.ofList ((pairs body).map fun (name, value) => (name, .string value)))

end Form
end RowQuery
