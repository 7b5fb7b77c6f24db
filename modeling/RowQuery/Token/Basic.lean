import RowQuery.Comparison
import RowQuery.Number.Style
import RowQuery.Text.Quoted

/-!
# `Token` — the words of query text

A keyword is recognised in any letter case and is then the same token however it was spelled; the
spelling it is given back is the lower-case one.
-/

set_option autoImplicit false

namespace RowQuery

inductive Keyword where
  | from' | as' | join | on | async | where' | select | new
  | and | or | not | true | false | null
deriving DecidableEq

namespace Keyword

/-- Every reserved word. -/
def all : List Keyword :=
  [.from', .as', .join, .on, .async, .where', .select, .new,
    .and, .or, .not, .true, .false, .null]

/-- The word in lower case. -/
def word : Keyword → String
  | .from' => "from"
  | .as' => "as"
  | .join => "join"
  | .on => "on"
  | .async => "async"
  | .where' => "where"
  | .select => "select"
  | .new => "new"
  | .and => "and"
  | .or => "or"
  | .not => "not"
  | .true => "true"
  | .false => "false"
  | .null => "null"

def name : Keyword → String
  | .from' => "From"
  | .as' => "As"
  | .join => "Join"
  | .on => "On"
  | .async => "Async"
  | .where' => "Where"
  | .select => "Select"
  | .new => "New"
  | .and => "And"
  | .or => "Or"
  | .not => "Not"
  | .true => "True"
  | .false => "False"
  | .null => "Null"

/-- The keyword a word spells, in any mixture of upper and lower case. Only ASCII letters matter:
no other letter has a lower case that some keyword contains. -/
def ofWord? (word : List Char) : Option Keyword :=
  all.find? fun k => k.word.toList == word.map Char.toLower

end Keyword

inductive Token where
  | keyword (k : Keyword)
  | identifier (name : String)
  | integer (n : Int64)
  | float (x : Binary64)
  | string (s : String)
  | comparison (op : Comparison)
  | assign
  | plus
  | minus
  | dot
  /-- `.?`, a null-safe dot. -/
  | dotQuestion
  /-- `?.`, the other spelling of a null-safe dot. -/
  | questionDot
  | comma
  | leftBrace
  | rightBrace
  | leftParen
  | rightParen
  /-- The end of the text. -/
  | eof
deriving DecidableEq

namespace Token

def inspect : Token → String
  | .keyword k => k.name
  | .identifier name => "Identifier(" ++ quote name ++ ")"
  | .integer n => "Integer(" ++ toString n.toInt ++ ")"
  | .float x => "Float(" ++ NumberStyle.literal.writeAll x ++ ")"
  | .string s => "String(" ++ quote s ++ ")"
  | .comparison .less => "LessThan"
  | .comparison .lessEqual => "LessThanEq"
  | .comparison .greater => "GreaterThan"
  | .comparison .greaterEqual => "GreaterThanEq"
  | .comparison .equal => "Equal"
  | .comparison .notEqual => "NotEqual"
  | .assign => "Assign"
  | .plus => "Plus"
  | .minus => "Minus"
  | .dot => "Dot"
  | .dotQuestion => "DotQuestion"
  | .questionDot => "QuestionDot"
  | .comma => "Comma"
  | .leftBrace => "LeftBrace"
  | .rightBrace => "RightBrace"
  | .leftParen => "LeftParen"
  | .rightParen => "RightParen"
  | .eof => "Eof"

/-- The name a token can give a property or a field: any word, a keyword in lower case. -/
def fieldName? : Token → Option String
  | .identifier name => some name
  | .keyword k => some k.word
  | _ => none

end Token

/-- A token and where it starts, counted in characters. -/
structure Lexeme where
  token : Token
  position : Nat
deriving DecidableEq

end RowQuery
