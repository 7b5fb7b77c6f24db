/-!
# `decodeUtf8` — text from bytes that may not be UTF-8

Bytes that begin a character but do not finish it are replaced together by one U+FFFD, and so is
every byte that cannot begin one (the longest prefix of a well-formed character is one error).
-/

set_option autoImplicit false

namespace RowQuery
namespace Utf8

/-- A character that has begun. -/
structure Partial where
  /-- How many bytes are still missing. -/
  missing : Nat
  /-- The bits read so far. -/
  bits : Nat
  /-- What the next byte may be: in some characters the second byte has a narrower range. -/
  low : Nat := 0x80
  high : Nat := 0xBF

/-- What a byte begins: a character of its own, a longer one, or nothing. -/
inductive Start where
  | whole (c : Char)
  | part (p : Partial)
  | invalid

def start (byte : Nat) : Start :=
  if byte < 0x80 then .whole (Char.ofNat byte)
  else if byte < 0xC2 then .invalid
  else if byte < 0xE0 then .part { missing := 1, bits := byte - 0xC0 }
  else if byte = 0xE0 then .part { missing := 2, bits := 0, low := 0xA0 }
  else if byte = 0xED then .part { missing := 2, bits := 0xD, high := 0x9F }
  else if byte < 0xF0 then .part { missing := 2, bits := byte - 0xE0 }
  else if byte = 0xF0 then .part { missing := 3, bits := 0, low := 0x90 }
  else if byte < 0xF4 then .part { missing := 3, bits := byte - 0xF0 }
  else if byte = 0xF4 then .part { missing := 3, bits := 4, high := 0x8F }
  else .invalid

/-- The character that stands for what is not UTF-8. -/
def replacement : Char := '\uFFFD'

/-- The characters of bytes, of which the first may belong to a character begun before. -/
def decodeFrom : Option Partial → List UInt8 → List Char
  | none, [] => []
  | some _, [] => [replacement]
  | begun, byte :: rest =>
    let fresh (text : List Char → List Char) : List Char :=
      match start byte.toNat with
      | .whole c => text (c :: decodeFrom none rest)
      | .part p => text (decodeFrom (some p) rest)
      | .invalid => text (replacement :: decodeFrom none rest)
    match begun with
    | none => fresh id
    | some p =>
      if p.low ≤ byte.toNat ∧ byte.toNat ≤ p.high then
        let bits := p.bits * 64 + (byte.toNat - 0x80)
        if p.missing = 1 then Char.ofNat bits :: decodeFrom none rest
        else decodeFrom (some { missing := p.missing - 1, bits }) rest
      else fresh (replacement :: ·)

end Utf8

/-- The text that bytes are, with replacements where they are not UTF-8. -/
def decodeUtf8 (bytes : List UInt8) : String := String.ofList (Utf8.decodeFrom none bytes)

def encodeUtf8 (text : String) : List UInt8 := text.toList.flatMap String.utf8EncodeChar

end RowQuery
