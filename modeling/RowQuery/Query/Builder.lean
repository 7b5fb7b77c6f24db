import RowQuery.Error
import RowQuery.Query.Reading

/-!
# Building queries clause by clause

A query can be put together from parts instead of written as text. An expression is given as text
or as it is; texts are parsed only when the query is built, and the first thing wrong with the
parts, in the order source, projection, groups, restriction, fields, is the error.
-/

set_option autoImplicit false

namespace RowQuery

/-- An expression as it is given to a builder. -/
inductive ExprSource where
  | text (text : String)
  | expr (e : Expr)

def ExprSource.resolve : ExprSource → Except Fault Expr
  | .text t => (Expr.parse t).mapError .parse
  | .expr e => .ok e

/-- A restriction as it is given to a builder. -/
inductive RestrictionSource where
  | text (text : String)
  | restriction (r : Restriction)

def RestrictionSource.resolve : RestrictionSource → Except Fault Restriction
  | .text t => ((Expr.parse t).map .ofExpr).mapError .parse
  | .restriction r => .ok r

/-- A join as it is given to a builder. -/
structure JoinBuilder where
  expr : ExprSource
  aliasName : String
  guard : Option ExprSource := none
  isAsync : Bool := false
  limit : Option Nat := none
  executor : Option Nat := none

namespace JoinBuilder

/-- Keep only rows for which the guard is neither null nor false. -/
def on (b : JoinBuilder) (guard : ExprSource) : JoinBuilder := { b with guard := some guard }

def async (b : JoinBuilder) : JoinBuilder := { b with isAsync := true }

/-- Let at most `n` tasks be under way, which makes the join async. -/
def limitTo (b : JoinBuilder) (n : Nat) : JoinBuilder := { b with isAsync := true, limit := some n }

/-- Hand tasks to an executor of the caller, which makes the join async. -/
def runOn (b : JoinBuilder) (executor : Nat) : JoinBuilder :=
  { b with isAsync := true, executor := some executor }

def build (b : JoinBuilder) : Except Fault Join := do
  if b.limit == some 0 then throw (.invalidQuery (.zeroLimit b.aliasName))
  let expr ← b.expr.resolve
  let guard ← b.guard.mapM ExprSource.resolve
  return {
    aliasName := b.aliasName, expr, guard,
    dispatch := if b.isAsync then .async b.limit b.executor else .sync }

end JoinBuilder

structure QueryBuilder where
  source : Option Source := none
  groups : List (List JoinBuilder) := []
  restriction : Option RestrictionSource := none
  projection : Option (List (String × ExprSource)) := none

namespace QueryBuilder

def fromSource (b : QueryBuilder) (name aliasName : String) : QueryBuilder :=
  { b with source := some ⟨name, aliasName⟩ }

def joinGroup (b : QueryBuilder) (joins : List JoinBuilder) : QueryBuilder :=
  { b with groups := b.groups ++ [joins] }

def join (b : QueryBuilder) (j : JoinBuilder) : QueryBuilder := b.joinGroup [j]

def restrict (b : QueryBuilder) (r : RestrictionSource) : QueryBuilder :=
  { b with restriction := some r }

def select (b : QueryBuilder) (fields : List (String × ExprSource)) : QueryBuilder :=
  { b with projection := some fields }

/-- The joins of a group; a group needs at least one. -/
def buildGroup (joins : List JoinBuilder) : Except Fault JoinGroup := do
  if joins.isEmpty then throw (.invalidQuery .emptyGroup)
  return ⟨← joins.mapM JoinBuilder.build⟩

def build (b : QueryBuilder) : Except Fault Query := do
  let some source := b.source | throw (.invalidQuery .noSource)
  let some fields := b.projection | throw (.invalidQuery .noProjection)
  let groups ← b.groups.mapM buildGroup
  let restriction ← b.restriction.mapM RestrictionSource.resolve
  let projection ← fields.mapM fun (name, e) => return (name, ← e.resolve)
  return { source, groups, restriction, projection }

end QueryBuilder

/-! ## Paths as text -/

namespace Expr

/-- The text with every `?.` replaced by `.?`, from left to right. -/
def turnMarks : List Char → List Char
  | '?' :: '.' :: rest => '.' :: '?' :: turnMarks rest
  | c :: rest => c :: turnMarks rest
  | [] => []

/-- The parts of a text between dots; there is always one. -/
def splitDots : List Char → List (List Char)
  | [] => [[]]
  | '.' :: rest => [] :: splitDots rest
  | c :: rest =>
    match splitDots rest with
    | part :: parts => (c :: part) :: parts
    | [] => [[c]]

/-- The segment a part names; a question mark at its head makes it optional. -/
def segmentOfPart : List Char → Segment
  | '?' :: name => ⟨String.ofList name, true⟩
  | name => ⟨String.ofList name, false⟩

/-- The property path that dotted text names. `.?` or `?.` before a segment makes it optional. -/
def property (path : String) : Expr :=
  match splitDots (turnMarks path.toList) with
  | [] => .variable ""
  | base :: parts =>
    parts.foldl (fun e part => e.segment (segmentOfPart part)) (.variable (String.ofList base))

end Expr
end RowQuery
