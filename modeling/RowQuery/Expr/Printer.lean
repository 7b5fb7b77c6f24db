import RowQuery.Expr.Basic
import RowQuery.Value.Text

/-!
# The text of an expression

An expression prints as query text. Operators inside an operand stand in parentheses, whatever
their precedence, so the text shows the tree.
-/

set_option autoImplicit false

namespace RowQuery

def Segment.text (s : Segment) : String :=
  (if s.optional then ".?" else ".") ++ s.name

def Segment.textAll (segments : List Segment) : String :=
  String.join (segments.map Segment.text)

/-- The text of a value as a literal: strings are quoted and floats keep their point. -/
def Value.literalText : Value → String
  | .string s => quote s
  | .float x => NumberStyle.literal.writeAll x
  | v => v.text

namespace Expr

/-- The text of an operand, given the expression's own text. -/
def operandText (e : Expr) (text : String) : String :=
  if e.isOperator then "(" ++ text ++ ")" else text

mutual
def text : Expr → String
  | .literal v => v.literalText
  | .variable name => name
  | .path base segments => operandText base (text base) ++ Segment.textAll segments
  | .add l r => operandText l (text l) ++ " + " ++ operandText r (text r)
  | .compare op l r => operandText l (text l) ++ " " ++ op.symbol ++ " " ++ operandText r (text r)
  | .and l r => operandText l (text l) ++ " and " ++ operandText r (text r)
  | .or l r => operandText l (text l) ++ " or " ++ operandText r (text r)
  | .not e => "not " ++ operandText e (text e)
  | .call target operation arguments =>
    operandText target (text target) ++ "." ++ operation ++
      "(" ++ ", ".intercalate (argumentTexts arguments) ++ ")"
termination_by structural e => e

def argumentTexts : List Expr → List String
  | [] => []
  | e :: rest => text e :: argumentTexts rest
termination_by structural es => es
end

end Expr
end RowQuery
