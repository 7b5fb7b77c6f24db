import RowQuery.Query.Reading

/-!
# `Query.Derives` — which token lists are queries

The grammar of queries as relations between token lists and the parts of a query, one relation a
clause. None of them says how a query is read. An expression inside a query is a run of tokens that
would be read as that expression if nothing else were there (`Expr.Spells`), so where a run ends is
not part of the grammar: it ends wherever the tokens around it leave it.

The dispatch of a group is an index of the relation for its joins. It is written once, after the
last sibling, and this is what makes it the dispatch of all of them.
-/

set_option autoImplicit false

namespace RowQuery

/-- The tokens, none of which is `Token.eof`, are by themselves read as the expression. -/
structure Expr.Spells (ts : List Token) (e : Expr) : Prop where
  inside : .eof ∉ ts
  whole : ∃ (lexemes : List Lexeme) (position : Nat), lexemes.map Lexeme.token = ts ∧
    ofTokens (lexemes ++ [⟨.eof, position⟩]) = .ok e

/-! ## Lists of parts -/

variable {α : Type}

/-- Any number of parts, one after another. -/
inductive Repeated (Part : List Token → α → Prop) : List Token → List α → Prop where
  | nil : Repeated Part [] []
  | snoc {ts us : List Token} {parts : List α} {a : α} (front : Repeated Part ts parts)
      (last : Part us a) : Repeated Part (ts ++ us) (parts ++ [a])

/-- One part or more, with a comma between each two. -/
inductive Separated (Part : List Token → α → Prop) : List Token → List α → Prop where
  | one {ts : List Token} {a : α} (h : Part ts a) : Separated Part ts [a]
  | snoc {ts us : List Token} {parts : List α} {a : α} (front : Separated Part ts parts)
      (last : Part us a) : Separated Part (ts ++ .comma :: us) (parts ++ [a])

/-! ## Clauses -/

/-- `expr as alias [on guard]`, one join of a group that is dispatched like this. -/
inductive Join.Derives (dispatch : Dispatch) : List Token → Join → Prop where
  | free {ts : List Token} {e : Expr} {name : String} (expr : e.Spells ts) :
      Derives dispatch (ts ++ [.keyword .as', .identifier name]) ⟨name, e, none, dispatch⟩
  | guarded {ts us : List Token} {e guard : Expr} {name : String} (expr : e.Spells ts)
      (on : guard.Spells us) :
      Derives dispatch (ts ++ .keyword .as' :: .identifier name :: .keyword .on :: us)
        ⟨name, e, some guard, dispatch⟩

/-- `[async [(limit)]]`. A limit is a positive integer. -/
inductive Dispatch.Derives : List Token → Dispatch → Prop where
  | sync : Derives [] .sync
  | async : Derives [.keyword .async] (.async none none)
  | limited {n : Int64} (h : 0 < n) :
      Derives [.keyword .async, .leftParen, .integer n, .rightParen]
        (.async (some n.toInt.toNat) none)

/-- `join …, …` and how all of these are dispatched. -/
inductive JoinGroup.Derives : List Token → JoinGroup → Prop where
  | group {ts us : List Token} {siblings : List Join} {dispatch : Dispatch}
      (joins : Separated (Join.Derives dispatch) ts siblings) (mode : dispatch.Derives us) :
      Derives (.keyword .join :: (ts ++ us)) ⟨siblings⟩

/-- `[where expr]`. -/
inductive Restriction.Derives : List Token → Option Restriction → Prop where
  | none : Derives [] none
  | some {ts : List Token} {e : Expr} (expr : e.Spells ts) :
      Derives (.keyword .where' :: ts) (some (.ofExpr e))

/-- `field = expr`. A keyword is a field name too, in lower case. -/
inductive Field.Derives : List Token → String × Expr → Prop where
  | name {ts : List Token} {e : Expr} {name : String} (expr : e.Spells ts) :
      Derives (.identifier name :: .assign :: ts) (name, e)
  | keyword {ts : List Token} {e : Expr} {k : Keyword} (expr : e.Spells ts) :
      Derives (.keyword k :: .assign :: ts) (k.word, e)

/-- All clauses in their order. -/
inductive Query.Derives : List Token → Query → Prop where
  | query {joins wheres fields : List Token} {source : Source} {groups : List JoinGroup}
      {restriction : Option Restriction} {projection : Projection}
      (groups' : Repeated JoinGroup.Derives joins groups)
      (restriction' : Restriction.Derives wheres restriction)
      (projection' : Separated Field.Derives fields projection) :
      Derives
        ([.keyword .from', .identifier source.name, .keyword .as', .identifier source.aliasName] ++
          joins ++ wheres ++
          (.keyword .select :: .keyword .new :: .leftBrace :: (fields ++ [.rightBrace])))
        ⟨source, groups, restriction, projection⟩

end RowQuery
