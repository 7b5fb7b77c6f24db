import RowQuery.Expr.Basic
import RowQuery.Token.Lexer

/-!
# `Reading` — expressions, one token at a time

From loosest to tightest, an expression is built by `or`, `and`, `not`, one comparison, `+`, and
what follows an operand: properties and calls. `or`, `and` and `+` group to the left; a comparison
takes no second comparison beside it.

The reader takes one token at a time and keeps what it has read so far: the brackets that are
open, the operators inside the innermost one that still wait for their right side, and what may
come next. Because one token decides each step, a prefix is refused at its first token that no
expression can go on with, and reading ends with the list of tokens.
-/

set_option autoImplicit false

namespace RowQuery
namespace Expr

/-- Operators that still wait for their right side, in the innermost bracket. Each kind can wait
at most once, except `not`, because a second one closes the first. -/
structure Pending where
  /-- The left side of an `or`. -/
  disjunct : Option Expr := none
  /-- The left side of an `and`. -/
  conjunct : Option Expr := none
  /-- How many `not`s stand before the operand. -/
  negations : Nat := 0
  /-- The left side of a comparison. -/
  compared : Option (Comparison × Expr) := none
  /-- The left side of a `+`. -/
  summand : Option Expr := none

namespace Pending

/-- The operand under `n` times `not`. -/
def negate (n : Nat) (e : Expr) : Expr :=
  match n with
  | 0 => e
  | n + 1 => .not (negate n e)

/-- The sum that ends with `e`. -/
def closeSum (p : Pending) (e : Expr) : Expr :=
  match p.summand with
  | none => e
  | some left => .add left e

/-- The comparison that ends with `e`. -/
def closeComparison (p : Pending) (e : Expr) : Expr :=
  match p.compared with
  | none => p.closeSum e
  | some (op, left) => .compare op left (p.closeSum e)

/-- The conjunction that ends with `e`. -/
def closeAnd (p : Pending) (e : Expr) : Expr :=
  let operand := negate p.negations (p.closeComparison e)
  match p.conjunct with
  | none => operand
  | some left => .and left operand

/-- The disjunction that ends with `e`: everything that waits is closed. -/
def closeOr (p : Pending) (e : Expr) : Expr :=
  match p.disjunct with
  | none => p.closeAnd e
  | some left => .or left (p.closeAnd e)

end Pending

inductive Bracket where
  | group
  /-- The arguments of a call, of which these are complete. -/
  | call (target : Expr) (operation : String) (arguments : List Expr)

inductive Awaiting where
  | operand
  /-- An argument or the end of the arguments. -/
  | argument
  /-- A number, after a minus sign. -/
  | number
  /-- Whatever may follow a complete operand. -/
  | operator (e : Expr)
  /-- The name of a property, after a dot. -/
  | property (e : Expr) (optional : Bool)
  /-- A property has been named; a parenthesis makes it a call. -/
  | segment (e : Expr) (name : String) (optional : Bool)

/-- What has been read of an expression. -/
structure Reading where
  /-- The open brackets, innermost first, each with the operators that wait outside it. -/
  outer : List (Pending × Bracket) := []
  pending : Pending := {}
  awaiting : Awaiting := .operand

inductive Step where
  | more (r : Reading)
  /-- The expression was complete before the token, which belongs to what comes after it. -/
  | done (e : Expr)

namespace Reading

def start : Reading := {}

def enter (r : Reading) (b : Bracket) (awaiting : Awaiting) : Reading :=
  { outer := (r.pending, b) :: r.outer, pending := {}, awaiting }

def operandRead (r : Reading) (e : Expr) : Reading := { r with awaiting := .operator e }

def beginOperand (r : Reading) (token : Token) : Except Complaint Step :=
  let literal (v : Value) : Except Complaint Step := .ok (.more (r.operandRead (.literal v)))
  match token with
  | .identifier name => .ok (.more (r.operandRead (.variable name)))
  | .integer n => literal (.int n)
  | .float x => literal (.float x)
  | .string s => literal (.string s)
  | .keyword .true => literal (.bool true)
  | .keyword .false => literal (.bool false)
  | .keyword .null => literal .null
  | .minus => .ok (.more { r with awaiting := .number })
  | .leftParen => .ok (.more (r.enter .group .operand))
  | .keyword .not =>
    -- inside a comparison or a sum there is no place for a negation
    if r.pending.compared.isNone && r.pending.summand.isNone then
      .ok (.more { r with
        pending := { r.pending with negations := r.pending.negations + 1 }, awaiting := .operand })
    else .error (.strayInExpression token)
  | .eof => .error .endInExpression
  | _ => .error (.strayInExpression token)

/-- The expression inside the innermost bracket is complete before this token. -/
def closeBracket (r : Reading) (e : Expr) (token : Token) : Except Complaint Step :=
  match r.outer with
  | [] => .ok (.done e)
  | (pending, .group) :: outer =>
    match token with
    | .rightParen => .ok (.more { outer, pending, awaiting := .operator e })
    | _ => .error (.expected .rightParen token)
  | (pending, .call target operation arguments) :: outer =>
    match token with
    | .comma =>
      .ok (.more { outer := (pending, .call target operation (arguments ++ [e])) :: outer,
                   awaiting := .argument })
    | .rightParen =>
      let call := Expr.call target operation (arguments ++ [e])
      .ok (.more { outer, pending, awaiting := .operator call })
    | _ => .error (.expected .rightParen token)

/-- A token after the complete operand `e`. -/
def afterOperand (r : Reading) (e : Expr) (token : Token) : Except Complaint Step :=
  let p := r.pending
  match token with
  | .dot => .ok (.more { r with awaiting := .property e false })
  | .dotQuestion => .ok (.more { r with awaiting := .property e true })
  | .questionDot => .ok (.more { r with awaiting := .property e true })
  | .plus =>
    .ok (.more { r with
      pending := { p with summand := some (p.closeSum e) }, awaiting := .operand })
  | .comparison op =>
    if p.compared.isNone then
      .ok (.more { r with
        pending := { p with compared := some (op, p.closeSum e), summand := none },
        awaiting := .operand })
    else r.closeBracket (p.closeOr e) token
  | .keyword .and =>
    .ok (.more { r with
      pending := { disjunct := p.disjunct, conjunct := some (p.closeAnd e) },
      awaiting := .operand })
  | .keyword .or =>
    .ok (.more { r with pending := { disjunct := some (p.closeOr e) }, awaiting := .operand })
  | _ => r.closeBracket (p.closeOr e) token

def accept (r : Reading) (token : Token) : Except Complaint Step :=
  match r.awaiting with
  | .operand => r.beginOperand token
  | .argument =>
    match token, r.outer with
    | .rightParen, (pending, .call target operation arguments) :: outer =>
      .ok (.more { outer, pending, awaiting := .operator (.call target operation arguments) })
    | .eof, _ => .error (.expected .rightParen token)
    | _, _ => r.beginOperand token
  | .number =>
    match token with
    | .integer n =>
      if n = Int64.minValue then .error (.negationOverflow n)
      else .ok (.more (r.operandRead (.literal (.int (-n)))))
    | .float x => .ok (.more (r.operandRead (.literal (.float x.neg))))
    | _ => .error (.negatedNonNumber token)
  | .operator e => r.afterOperand e token
  | .property e optional =>
    match token.fieldName? with
    | some name => .ok (.more { r with awaiting := .segment e name optional })
    | none => .error (.expectedProperty token)
  | .segment e name optional =>
    match token with
    | .leftParen =>
      if optional then .error (.nullSafeCall name)
      else .ok (.more (r.enter (.call e name []) .argument))
    | _ => r.afterOperand (e.segment ⟨name, optional⟩) token

end Reading

/-- The expression at the head of the tokens, as long as it can be, and the tokens after it. -/
def read (r : Reading) : List Lexeme → Except ParseError (Expr × List Lexeme)
  | [] => .error ⟨0, .endInExpression⟩
  | lexeme :: rest =>
    match r.accept lexeme.token with
    | .error complaint => .error ⟨lexeme.position, complaint⟩
    | .ok (.more r) => read r rest
    | .ok (.done e) => .ok (e, lexeme :: rest)

/-- The expression that the tokens are, up to `Token.eof`. -/
def ofTokens (tokens : List Lexeme) : Except ParseError Expr :=
  match read .start tokens with
  | .error e => .error e
  | .ok (e, ⟨.eof, _⟩ :: _) => .ok e
  | .ok (_, ⟨token, position⟩ :: _) => .error ⟨position, .strayAfterExpression token⟩
  | .ok (e, []) => .ok e

def parse (text : String) : Except ParseError Expr := do
  ofTokens (← tokenize text)

end Expr
end RowQuery
