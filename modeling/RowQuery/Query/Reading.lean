import RowQuery.Expr.Reading
import RowQuery.Query.Basic

/-!
# Reading queries, one token at a time

    from source as alias
    join expr as alias [on guard], … [async [(limit)]]      any number of groups
    [where expr]
    select new { field = expr, … }

As with expressions, what has been read is kept as data and one token decides each step. The
expressions inside a query are read by `Expr.Reading` until a token comes that they cannot take.
-/

set_option autoImplicit false

namespace RowQuery
namespace Query

structure Draft where
  source : Source
  groups : List JoinGroup := []
  restriction : Option Restriction := none

/-- One join of a group, before it is known how the group is dispatched. -/
structure Item where
  aliasName : String
  expr : Expr
  guard : Option Expr

namespace Draft

/-- The draft with one more group, all of whose siblings are dispatched alike. -/
def addGroup (d : Draft) (items : List Item) (dispatch : Dispatch) : Draft :=
  let siblings := items.map fun i => ⟨i.aliasName, i.expr, i.guard, dispatch⟩
  { d with groups := d.groups ++ [⟨siblings⟩] }

def toQuery (d : Draft) (projection : Projection) : Query :=
  ⟨d.source, d.groups, d.restriction, projection⟩

end Draft

/-- What has been read of a query: each constructor is a place between two tokens. -/
inductive Reading where
  | start
  /-- After `from`. -/
  | sourceName
  | sourceAs (source : String)
  | sourceAlias (source : String)
  /-- Between clauses, `where` not yet seen. -/
  | clauses (d : Draft)
  | joinExpr (d : Draft) (items : List Item) (r : Expr.Reading)
  | joinAlias (d : Draft) (items : List Item) (e : Expr)
  /-- After a join that has no guard yet. -/
  | joined (d : Draft) (items : List Item) (last : Item)
  | joinGuard (d : Draft) (items : List Item) (last : Item) (r : Expr.Reading)
  /-- After `async`. -/
  | async (d : Draft) (items : List Item)
  | limit (d : Draft) (items : List Item)
  | limitEnd (d : Draft) (items : List Item) (n : Nat)
  | restriction (d : Draft) (r : Expr.Reading)
  /-- After `select`. -/
  | selectNew (d : Draft)
  | selectBrace (d : Draft)
  | fieldName (d : Draft) (fields : Projection)
  | fieldAssign (d : Draft) (fields : Projection) (name : String)
  | fieldExpr (d : Draft) (fields : Projection) (name : String) (r : Expr.Reading)
  /-- After the closing brace. -/
  | closed (q : Query)
  /-- After `Token.eof`. -/
  | done (q : Query)

namespace Reading

/-- Go on to `next` if the token is the one that must come here. -/
def require (token found : Token) (next : Reading) : Except Complaint Reading :=
  if found = token then .ok next else .error (.expected token found)

def requireName (role : NameRole) (found : Token) (next : String → Reading) :
    Except Complaint Reading :=
  match found with
  | .identifier name => .ok (next name)
  | _ => .error (.expectedName role found)

def acceptClause (d : Draft) (token : Token) : Except Complaint Reading :=
  match token with
  | .keyword .join => .ok (.joinExpr d [] .start)
  | .keyword .where' => .ok (.restriction d .start)
  | _ => require (.keyword .select) token (.selectNew d)

def acceptAfterItem (d : Draft) (items : List Item) (token : Token) : Except Complaint Reading :=
  match token with
  | .comma => .ok (.joinExpr d items .start)
  | .keyword .async => .ok (.async d items)
  | _ => acceptClause (d.addGroup items .sync) token

/-- A token of the expression read by `r`: either it goes on, or it is complete and `finish`
takes the token. -/
def acceptExpr (r : Expr.Reading) (token : Token) (goOn : Expr.Reading → Reading)
    (finish : Expr → Except Complaint Reading) : Except Complaint Reading :=
  match r.accept token with
  | .error complaint => .error complaint
  | .ok (.more r) => .ok (goOn r)
  | .ok (.done e) => finish e

def accept (r : Reading) (token : Token) : Except Complaint Reading :=
  match r with
  | .start => require (.keyword .from') token .sourceName
  | .sourceName => requireName .source token .sourceAs
  | .sourceAs source => require (.keyword .as') token (.sourceAlias source)
  | .sourceAlias source =>
    requireName .rowAlias token fun name => .clauses { source := ⟨source, name⟩ }
  | .clauses d => acceptClause d token
  | .joinExpr d items r =>
    acceptExpr r token (.joinExpr d items) fun e =>
      require (.keyword .as') token (.joinAlias d items e)
  | .joinAlias d items e =>
    requireName .joinAlias token fun name => .joined d items ⟨name, e, none⟩
  | .joined d items last =>
    match token with
    | .keyword .on => .ok (.joinGuard d items last .start)
    | _ => acceptAfterItem d (items ++ [last]) token
  | .joinGuard d items last r =>
    acceptExpr r token (.joinGuard d items last) fun e =>
      acceptAfterItem d (items ++ [{ last with guard := some e }]) token
  | .async d items =>
    match token with
    | .leftParen => .ok (.limit d items)
    | _ => acceptClause (d.addGroup items (.async none none)) token
  | .limit d items =>
    match token with
    | .integer n => if 0 < n then .ok (.limitEnd d items n.toInt.toNat)
      else .error (.expectedLimit token)
    | _ => .error (.expectedLimit token)
  | .limitEnd d items n =>
    require .rightParen token (.clauses (d.addGroup items (.async (some n) none)))
  | .restriction d r =>
    acceptExpr r token (.restriction d) fun e =>
      require (.keyword .select) token (.selectNew { d with restriction := some (.ofExpr e) })
  | .selectNew d => require (.keyword .new) token (.selectBrace d)
  | .selectBrace d => require .leftBrace token (.fieldName d [])
  | .fieldName d fields =>
    match token.fieldName? with
    | some name => .ok (.fieldAssign d fields name)
    | none => .error (.expectedField token)
  | .fieldAssign d fields name => require .assign token (.fieldExpr d fields name .start)
  | .fieldExpr d fields name r =>
    acceptExpr r token (.fieldExpr d fields name) fun e =>
      let fields := fields ++ [(name, e)]
      match token with
      | .comma => .ok (.fieldName d fields)
      | _ => require .rightBrace token (.closed (d.toQuery fields))
  | .closed q => if token = .eof then .ok (.done q) else .error (.strayAfterQuery token)
  | .done _ => .error (.strayAfterQuery token)

end Reading

def read (r : Reading) : List Lexeme → Except ParseError Reading
  | [] => .ok r
  | lexeme :: rest =>
    match r.accept lexeme.token with
    | .error complaint => .error ⟨lexeme.position, complaint⟩
    | .ok r => read r rest

/-- The query that the tokens are, up to `Token.eof`. -/
def ofTokens (tokens : List Lexeme) : Except ParseError Query :=
  match read .start tokens with
  | .error e => .error e
  | .ok (.done q) => .ok q
  | .ok _ => .error ⟨0, .endInExpression⟩

def parse (text : String) : Except ParseError Query := do
  ofTokens (← tokenize text)

end Query
end RowQuery
