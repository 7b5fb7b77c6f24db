import RowQuery.Json.Basic
import RowQuery.Number.Style

/-!
# Writing JSON documents

`compact` writes no blanks at all, `pretty` one member or item a line, two spaces deeper than
what holds it. Strings escape what JSON requires and nothing else.
-/

set_option autoImplicit false

namespace RowQuery
namespace Json

/-! ## Strings -/

private def hexDigits (n : Nat) : List Char :=
  let digits := Nat.toDigits 16 n
  List.replicate (4 - digits.length) '0' ++ digits

/-- The characters that stand for one character of a string. -/
def encodeChar (c : Char) : List Char :=
  match c with
  | '"' => ['\\', '"']
  | '\\' => ['\\', '\\']
  | '\x08' => ['\\', 'b']
  | '\x0c' => ['\\', 'f']
  | '\n' => ['\\', 'n']
  | '\r' => ['\\', 'r']
  | '\t' => ['\\', 't']
  | c => if c.val < 32 then ['\\', 'u'] ++ hexDigits c.toNat else [c]

def quoteString (s : String) : String :=
  String.ofList ('"' :: (s.toList.flatMap encodeChar ++ ['"']))

/-! ## Without blanks -/

mutual
def compact : Json → String
  | .null => "null"
  | .bool b => if b then "true" else "false"
  | .int n => toString n
  | .float x => NumberStyle.json.write x
  | .string s => quoteString s
  | .array items => "[" ++ ",".intercalate (compactItems items) ++ "]"
  | .object members => "\x7b" ++ ",".intercalate (compactMembers members) ++ "\x7d"
termination_by structural j => j

def compactItems : List Json → List String
  | [] => []
  | j :: rest => compact j :: compactItems rest
termination_by structural js => js

def compactMembers : List (String × Json) → List String
  | [] => []
  | (n, j) :: rest => (quoteString n ++ ":" ++ compact j) :: compactMembers rest
termination_by structural ms => ms
end

/-! ## One item a line -/

private def newLine (depth : Nat) : String :=
  String.ofList ('\n' :: List.replicate (2 * depth) ' ')

/-- Parts between brackets, each on a line of its own one level deeper; without parts, the
brackets alone. -/
def block (opening closing : String) (depth : Nat) (parts : List String) : String :=
  match parts with
  | [] => opening ++ closing
  | parts =>
    opening ++ newLine (depth + 1) ++ ("," ++ newLine (depth + 1)).intercalate parts
      ++ newLine depth ++ closing

mutual
/-- The document laid out over lines, where it stands `depth` levels deep. -/
def prettyAt (depth : Nat) : Json → String
  | .array items => block "[" "]" depth (prettyItems (depth + 1) items)
  | .object members => block "\x7b" "\x7d" depth (prettyMembers (depth + 1) members)
  | .null => "null"
  | .bool b => if b then "true" else "false"
  | .int n => toString n
  | .float x => NumberStyle.json.write x
  | .string s => quoteString s
termination_by structural j => j

def prettyItems (depth : Nat) : List Json → List String
  | [] => []
  | j :: rest => prettyAt depth j :: prettyItems depth rest
termination_by structural js => js

def prettyMembers (depth : Nat) : List (String × Json) → List String
  | [] => []
  | (n, j) :: rest => (quoteString n ++ ": " ++ prettyAt depth j) :: prettyMembers depth rest
termination_by structural ms => ms
end

def pretty (j : Json) : String := prettyAt 0 j

end Json
end RowQuery
