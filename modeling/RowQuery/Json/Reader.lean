import RowQuery.Json.NumberText

/-!
# Reading JSON documents

The reader is strict (RFC 8259) and reads in two passes: characters become marks and scalars, and
a machine with a stack of open arrays and objects turns these into a document, one at a time.
Beyond the grammar it refuses escapes that name half of a surrogate pair, and what its `Limits`
leave out: documents nested too deep and numbers too large for a double.
-/

set_option autoImplicit false

namespace RowQuery
namespace Json

/-! ## Characters to lexemes -/

inductive Mark where
  | beginArray | endArray | beginObject | endObject | comma | colon

/-- A mark or a value without parts. -/
inductive Lexeme where
  | mark (m : Mark)
  | scalar (j : Json)

private def hexValue? (c : Char) : Option Nat :=
  if c.isDigit then some (c.toNat - '0'.toNat)
  else if 'a' ≤ c && c ≤ 'f' then some (c.toNat - 'a'.toNat + 10)
  else if 'A' ≤ c && c ≤ 'F' then some (c.toNat - 'A'.toNat + 10)
  else none

/-- The number that four hexadecimal digits name. -/
def codeUnit? (a b c d : Char) : Option Nat := do
  let a ← hexValue? a
  let b ← hexValue? b
  let c ← hexValue? c
  let d ← hexValue? d
  return ((a * 16 + b) * 16 + c) * 16 + d

/-- The character after a backslash, for the escapes of one character. -/
def shortEscape? (c : Char) : Option Char :=
  match c with
  | '"' => some '"'
  | '\\' => some '\\'
  | '/' => some '/'
  | 'b' => some '\x08'
  | 'f' => some '\x0c'
  | 'n' => some '\n'
  | 'r' => some '\r'
  | 't' => some '\t'
  | _ => none

/-- The characters of a string up to its closing quote, and what follows the quote. -/
def readString? : List Char → Option (List Char × List Char)
  | [] => none
  | '"' :: rest => some ([], rest)
  | '\\' :: 'u' :: a :: b :: c :: d :: rest =>
    match codeUnit? a b c d with
    | none => none
    | some high =>
      if high < 0xD800 ∨ 0xE000 ≤ high then
        (readString? rest).map fun (text, after) => (Char.ofNat high :: text, after)
      else match rest with
        | '\\' :: 'u' :: a :: b :: c :: d :: rest =>
          match codeUnit? a b c d with
          | none => none
          | some low =>
            if high < 0xDC00 ∧ 0xDC00 ≤ low ∧ low < 0xE000 then
              let code := 0x10000 + (high - 0xD800) * 0x400 + (low - 0xDC00)
              (readString? rest).map fun (text, after) => (Char.ofNat code :: text, after)
            else none
        | _ => none
  | '\\' :: c :: rest =>
    match shortEscape? c with
    | none => none
    | some c => (readString? rest).map fun (text, after) => (c :: text, after)
  | c :: rest =>
    if c.val < 32 then none
    else (readString? rest).map fun (text, after) => (c :: text, after)

/-- The digits after `.`, if the text goes on with a fraction; a point without digits is
refused. -/
def readFraction? (cs : List Char) : Option (List Char × List Char) :=
  match cs with
  | '.' :: rest =>
    let digits := rest.takeWhile Char.isDigit
    if digits.isEmpty then none else some (digits, rest.dropWhile Char.isDigit)
  | _ => some ([], cs)

/-- The exponent, if the text goes on with one; an exponent without digits is refused. -/
def readExponent? (cs : List Char) : Option (Option Int × List Char) :=
  let signed (negative : Bool) (rest : List Char) : Option (Option Int × List Char) :=
    let digits := rest.takeWhile Char.isDigit
    if digits.isEmpty then none
    else
      let size : Int := digitsValue digits
      some (some (if negative then -size else size), rest.dropWhile Char.isDigit)
  let afterLetter (rest : List Char) : Option (Option Int × List Char) :=
    match rest with
    | '-' :: rest => signed true rest
    | '+' :: rest => signed false rest
    | rest => signed false rest
  match cs with
  | 'e' :: rest => afterLetter rest
  | 'E' :: rest => afterLetter rest
  | _ => some (none, cs)

/-- The number at the head of the text, and what follows it. A whole part has no leading
zeros. -/
def readNumber? (cs : List Char) : Option (NumberText × List Char) := do
  let (negative, cs) := match cs with
    | '-' :: rest => (true, rest)
    | cs => (false, cs)
  let (whole, rest) := match cs with
    | '0' :: rest => (['0'], rest)
    | cs => (cs.takeWhile Char.isDigit, cs.dropWhile Char.isDigit)
  if whole.isEmpty then none
  let (fraction, rest) ← readFraction? rest
  let (exponent, rest) ← readExponent? rest
  return ({ negative, whole, fraction, exponent }, rest)

/-- What a reader decides beyond the grammar. -/
structure Limits where
  /-- How deep documents may nest. -/
  depth : Nat := 127
  /-- What a number is, if there is room for it. -/
  number? : NumberText → Option Json := NumberText.toJson?

/-- The lexemes of a text. Each turn takes at least one character, so as many turns as there are
characters are enough. -/
def lexWithin? (limits : Limits) : (turns : Nat) → List Char → Option (List Lexeme)
  | _, [] => some []
  | 0, _ => none
  | turns + 1, c :: rest =>
    let mark (m : Mark) : Option (List Lexeme) :=
      (lexWithin? limits turns rest).map (.mark m :: ·)
    let word (j : Json) (tail : List Char) : Option (List Lexeme) :=
      if tail.isPrefixOf rest then
        (lexWithin? limits turns (rest.drop tail.length)).map (.scalar j :: ·)
      else none
    match c with
    | ' ' => lexWithin? limits turns rest
    | '\t' => lexWithin? limits turns rest
    | '\n' => lexWithin? limits turns rest
    | '\r' => lexWithin? limits turns rest
    | '[' => mark .beginArray
    | ']' => mark .endArray
    | '\x7b' => mark .beginObject
    | '\x7d' => mark .endObject
    | ',' => mark .comma
    | ':' => mark .colon
    | 'n' => word .null ['u', 'l', 'l']
    | 't' => word (.bool true) ['r', 'u', 'e']
    | 'f' => word (.bool false) ['a', 'l', 's', 'e']
    | '"' => match readString? rest with
      | none => none
      | some (text, rest) =>
        (lexWithin? limits turns rest).map (.scalar (.string (String.ofList text)) :: ·)
    | _ => match readNumber? (c :: rest) with
      | none => none
      | some (number, rest) =>
        match limits.number? number with
        | none => none
        | some j => (lexWithin? limits turns rest).map (.scalar j :: ·)

/-! ## Lexemes to a document -/

/-- What is open around the place being read, with the parts complete so far, latest first. -/
inductive Frame where
  | array (items : List Json)
  /-- An object between two members. -/
  | object (members : List (String × Json))
  /-- An object in whose member `name` the place is. -/
  | member (members : List (String × Json)) (name : String)

inductive Awaiting where
  | value
  | valueOrEnd
  | name
  | nameOrEnd
  | colon
  /-- A value is complete; what follows belongs to the frame around it. -/
  | next (j : Json)

/-- Read one lexeme. Opening an array or object beyond `depth` is refused. -/
def step? (depth : Nat) (frames : List Frame) (awaiting : Awaiting) (lexeme : Lexeme) :
    Option (List Frame × Awaiting) :=
  let value : Option (List Frame × Awaiting) :=
    match lexeme with
    | .scalar j => some (frames, .next j)
    | .mark .beginArray =>
      if frames.length < depth then some (.array [] :: frames, .valueOrEnd) else none
    | .mark .beginObject =>
      if frames.length < depth then some (.object [] :: frames, .nameOrEnd) else none
    | .mark _ => none
  match awaiting, frames, lexeme with
  | .valueOrEnd, .array _ :: outer, .mark .endArray => some (outer, .next (.array []))
  | .value, _, _ => value
  | .valueOrEnd, _, _ => value
  | .nameOrEnd, .object _ :: outer, .mark .endObject => some (outer, .next (.object []))
  | .name, .object ms :: outer, .scalar (.string n) => some (.member ms n :: outer, .colon)
  | .nameOrEnd, .object ms :: outer, .scalar (.string n) => some (.member ms n :: outer, .colon)
  | .colon, _, .mark .colon => some (frames, .value)
  | .next j, .array js :: outer, .mark .comma => some (.array (j :: js) :: outer, .value)
  | .next j, .array js :: outer, .mark .endArray =>
    some (outer, .next (.array (j :: js).reverse))
  | .next j, .member ms n :: outer, .mark .comma => some (.object ((n, j) :: ms) :: outer, .name)
  | .next j, .member ms n :: outer, .mark .endObject =>
    some (outer, .next (.object (sortMembers ((n, j) :: ms).reverse)))
  | _, _, _ => none

def run? (depth : Nat) : List Frame → Awaiting → List Lexeme → Option Json
  | [], .next j, [] => some j
  | _, _, [] => none
  | frames, awaiting, lexeme :: rest =>
    match step? depth frames awaiting lexeme with
    | none => none
    | some (frames, awaiting) => run? depth frames awaiting rest

/-- The document a text is, if it is one within these limits. -/
def parseWithin? (limits : Limits) (text : String) : Option Json := do
  let cs := text.toList
  run? limits.depth [] .value (← lexWithin? limits cs.length cs)

def parse? (text : String) : Option Json := parseWithin? {} text

end Json
end RowQuery
