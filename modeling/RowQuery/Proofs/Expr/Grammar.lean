import RowQuery.Expr.Reading

/-!
# `Derives` — which token lists are expressions

The grammar as an inductive relation between token lists and the expressions they are. It says
nothing of how an expression is read: there is one rung for each level of precedence, loosest
first, every rung but the tightest passes on what the next one derives, and the operators that
group to the left have their own rung on their left side and the next one on their right.

Repetition is left recursion here, which is the same language and makes the grouping part of the
rule. Arguments are listed by `Listed`, a relation of its own, so that the one place where the
grammar is not a chain of rungs stays small.
-/

set_option autoImplicit false

namespace RowQuery
namespace Expr

/-- The levels of precedence, loosest first. A chain is an operand with the properties and calls
that follow it. -/
inductive Rung where
  | disjunction | conjunction | negation | comparison | sum | chain | atom
deriving DecidableEq

/-- The value of a token that is a literal by itself. -/
def literalOf? : Token → Option Value
  | .integer n => some (.int n)
  | .float x => some (.float x)
  | .string s => some (.string s)
  | .keyword .true => some (.bool true)
  | .keyword .false => some (.bool false)
  | .keyword .null => some .null
  | _ => none

/-- The value of a number token after a minus sign. The least integer has no opposite. -/
def negatedOf? : Token → Option Value
  | .integer n => if n = Int64.minValue then none else some (.int (-n))
  | .float x => some (.float x.neg)
  | _ => none

/-- Whether a dot is null-safe; no other token is a dot. -/
def dotOf? : Token → Option Bool
  | .dot => some false
  | .dotQuestion => some true
  | .questionDot => some true
  | _ => none

/-- The tokens of arguments, each given with the expression it is: commas stand between them, and
one more may stand after the last. -/
inductive Listed : List (List Token × Expr) → List Token → Prop where
  | none : Listed [] []
  | last (ts : List Token) (e : Expr) : Listed [(ts, e)] ts
  | more {arguments : List (List Token × Expr)} {us : List Token} (ts : List Token) (e : Expr)
      (rest : Listed arguments us) : Listed ((ts, e) :: arguments) (ts ++ .comma :: us)

/-- The tokens are the expression, as far as this rung goes. -/
inductive Derives : Rung → List Token → Expr → Prop where
  | name (n : String) : Derives .atom [.identifier n] (.variable n)
  | literal {t : Token} {v : Value} (h : literalOf? t = some v) : Derives .atom [t] (.literal v)
  | negative {t : Token} {v : Value} (h : negatedOf? t = some v) :
      Derives .atom [.minus, t] (.literal v)
  | group {ts : List Token} {e : Expr} (inside : Derives .disjunction ts e) :
      Derives .atom (.leftParen :: (ts ++ [.rightParen])) e
  | ofAtom {ts : List Token} {e : Expr} (h : Derives .atom ts e) : Derives .chain ts e
  | property {ts : List Token} {e : Expr} {d n : Token} {optional : Bool} {name : String}
      (base : Derives .chain ts e) (hd : dotOf? d = some optional)
      (hn : n.fieldName? = some name) :
      Derives .chain (ts ++ [d, n]) (e.segment ⟨name, optional⟩)
  | call {ts us : List Token} {e : Expr} {n : Token} {name : String}
      {arguments : List (List Token × Expr)} (target : Derives .chain ts e)
      (hn : n.fieldName? = some name)
      (each : ∀ a ∈ arguments, Derives .disjunction a.1 a.2) (listed : Listed arguments us) :
      Derives .chain (ts ++ .dot :: n :: .leftParen :: (us ++ [.rightParen]))
        (.call e name (arguments.map Prod.snd))
  | ofChain {ts : List Token} {e : Expr} (h : Derives .chain ts e) : Derives .sum ts e
  | add {ts us : List Token} {l r : Expr} (left : Derives .sum ts l) (right : Derives .chain us r) :
      Derives .sum (ts ++ .plus :: us) (.add l r)
  | ofSum {ts : List Token} {e : Expr} (h : Derives .sum ts e) : Derives .comparison ts e
  | compare {ts us : List Token} {l r : Expr} (op : Comparison) (left : Derives .sum ts l)
      (right : Derives .sum us r) :
      Derives .comparison (ts ++ .comparison op :: us) (.compare op l r)
  | ofComparison {ts : List Token} {e : Expr} (h : Derives .comparison ts e) :
      Derives .negation ts e
  | not {ts : List Token} {e : Expr} (operand : Derives .negation ts e) :
      Derives .negation (.keyword .not :: ts) (.not e)
  | ofNegation {ts : List Token} {e : Expr} (h : Derives .negation ts e) :
      Derives .conjunction ts e
  | and {ts us : List Token} {l r : Expr} (left : Derives .conjunction ts l)
      (right : Derives .negation us r) : Derives .conjunction (ts ++ .keyword .and :: us) (.and l r)
  | ofConjunction {ts : List Token} {e : Expr} (h : Derives .conjunction ts e) :
      Derives .disjunction ts e
  | or {ts us : List Token} {l r : Expr} (left : Derives .disjunction ts l)
      (right : Derives .conjunction us r) :
      Derives .disjunction (ts ++ .keyword .or :: us) (.or l r)

namespace Derives

/-- A chain stands wherever a comparison's side may be looked for, up to a negation. -/
theorem chain_negation {ts : List Token} {e : Expr} (h : Derives .chain ts e) :
    Derives .negation ts e := .ofComparison (.ofSum (.ofChain h))

/-- A chain is an expression. -/
theorem chain_disjunction {ts : List Token} {e : Expr} (h : Derives .chain ts e) :
    Derives .disjunction ts e := .ofConjunction (.ofNegation h.chain_negation)

end Derives
end Expr
end RowQuery
