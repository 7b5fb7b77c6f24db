import RowQuery.Text.Concealed

/-!
# `quote` — text between double quotes

Quoted text shows every character that has a shape of its own and escapes the others. It is how
names and string literals appear in messages, and how string literals appear in query text.
-/

set_option autoImplicit false

namespace RowQuery
namespace Quoted

/-- The characters that stand for one character between the quotes. -/
def encodeChar (c : Char) : List Char :=
  match c with
  | '"' => ['\\', '"']
  | '\\' => ['\\', '\\']
  | '\n' => ['\\', 'n']
  | '\r' => ['\\', 'r']
  | '\t' => ['\\', 't']
  | '\x00' => ['\\', '0']
  | c =>
    if isConcealed c then ['\\', 'u', '\x7b'] ++ Nat.toDigits 16 c.toNat ++ ['\x7d']
    else [c]

def encode (text : List Char) : List Char := text.flatMap encodeChar

end Quoted

/-- The text between double quotes, with escapes where characters need them. -/
def quote (text : String) : String :=
  String.ofList ('"' :: (Quoted.encode text.toList ++ ['"']))

end RowQuery
