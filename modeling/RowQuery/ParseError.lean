import RowQuery.Token.Basic

/-!
# `ParseError` — why a text is not a query

A complaint is about one place: a character where no token can start, or a token that cannot
stand where it stands.
-/

set_option autoImplicit false

namespace RowQuery

/-- The names that a query must give at certain places. -/
inductive NameRole where
  | source
  | rowAlias
  | joinAlias
deriving DecidableEq

def NameRole.text : NameRole → String
  | .source => "source variable after 'from'"
  | .rowAlias => "alias after 'as'"
  | .joinAlias => "join alias after 'as'"

/-- What is wrong at a place of a text. -/
inductive Complaint where
  -- characters that make no token
  | unterminatedString
  | wordAfterNumber (number word : String)
  | wordAfterString (quoteMark : Char) (content word : String)
  | integerOutOfRange (digits : String)
  | loneBang
  | strayCharacter (c : Char)
  -- tokens out of place
  | expected (token found : Token)
  | expectedName (role : NameRole) (found : Token)
  | expectedLimit (found : Token)
  | expectedField (found : Token)
  | expectedProperty (found : Token)
  | nullSafeCall (operation : String)
  | endInExpression
  | strayInExpression (found : Token)
  | negationOverflow (n : Int64)
  | negatedNonNumber (found : Token)
  | strayAfterQuery (found : Token)
  | strayAfterExpression (found : Token)
  /-- A complaint in words of its own. -/
  | custom (message : String)
deriving DecidableEq

namespace Complaint

def message : Complaint → String
  | .unterminatedString => "Unterminated string"
  | .wordAfterNumber number word =>
    "Invalid number literal '" ++ number ++ word ++ "': expected whitespace after number"
  | .wordAfterString q content word =>
    "Invalid string literal " ++ q.toString ++ content ++ q.toString ++ word ++
      ": expected whitespace after string"
  | .integerOutOfRange digits => "Invalid integer number: " ++ digits
  | .loneBang => "Unexpected character: '!' (use 'not' for negation)"
  | .strayCharacter c => "Unexpected character: '" ++ c.toString ++ "'"
  | .expected token found => "Expected " ++ token.inspect ++ ", got " ++ found.inspect
  | .expectedName role found => "Expected " ++ role.text ++ ", got " ++ found.inspect
  | .expectedLimit found => "Expected positive integer concurrency limit, got " ++ found.inspect
  | .expectedField found => "Expected field name, got " ++ found.inspect
  | .expectedProperty found => "Expected property name after '.', got " ++ found.inspect
  | .nullSafeCall operation => "Null-safe access cannot be used to call '" ++ operation ++ "'"
  | .endInExpression => "Unexpected end of input in expression"
  | .strayInExpression found => "Unexpected token in expression: " ++ found.inspect
  | .negationOverflow n => "Integer overflow negating " ++ toString n.toInt
  | .negatedNonNumber found => "Unary minus applies only to number literals, got " ++ found.inspect
  | .strayAfterQuery found => "Unexpected token after query: " ++ found.inspect
  | .strayAfterExpression found => "Unexpected token after expression: " ++ found.inspect
  | .custom message => message

end Complaint

/-- A complaint and the position it is about, counted in characters. -/
structure ParseError where
  position : Nat
  complaint : Complaint
deriving DecidableEq

end RowQuery
