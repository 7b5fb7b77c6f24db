import RowQuery.Proofs.Token.Literals
import RowQuery.Query.Builder

/-!
# A query in parts, built or written

`QueryParts` is what both ways to a query start from: names, and expressions as texts. `builder`
hands the parts to a query builder; `pieces` puts them into the order of the grammar, and `Written`
says which texts have these pieces with blanks between them.
-/

set_option autoImplicit false

namespace RowQuery

/-! ## The parts -/

/-- One join of a group. -/
structure JoinParts where
  expr : String
  aliasName : String
  guard : Option String

/-- How all joins of a group are dispatched, as far as a text can say it. -/
inductive GroupMode where
  | sync
  | async
  | limited (limit : Nat)

def GroupMode.dispatch : GroupMode → Dispatch
  | .sync => .sync
  | .async => .async none none
  | .limited n => .async (some n) none

/-- Sibling joins. -/
structure GroupParts where
  joins : List JoinParts
  mode : GroupMode

/-- The clauses of a query. -/
structure QueryParts where
  source : String
  aliasName : String
  groups : List GroupParts
  restriction : Option String
  fields : List (String × String)

/-- The text is an expression. -/
def IsExprText (text : String) : Prop := ∃ e, Expr.parse text = .ok e

structure JoinParts.WellFormed (j : JoinParts) : Prop where
  expr : IsExprText j.expr
  aliasName : IsName j.aliasName
  guard : ∀ g ∈ j.guard, IsExprText g

/-- A limit is a positive 64-bit integer. -/
def GroupMode.WellFormed : GroupMode → Prop
  | .sync => True
  | .async => True
  | .limited n => 0 < n ∧ (n : Int) ≤ Int64.maxValue.toInt

structure GroupParts.WellFormed (g : GroupParts) : Prop where
  nonempty : g.joins ≠ []
  joins : ∀ j ∈ g.joins, j.WellFormed
  mode : g.mode.WellFormed

structure QueryParts.WellFormed (q : QueryParts) : Prop where
  source : IsName q.source
  aliasName : IsName q.aliasName
  groups : ∀ g ∈ q.groups, g.WellFormed
  restriction : ∀ w ∈ q.restriction, IsExprText w
  nonempty : q.fields ≠ []
  fields : ∀ f ∈ q.fields, IsFieldName f.1 ∧ IsExprText f.2

/-! ## Built -/

/-- The join as it is given to a builder. -/
def JoinParts.builder (mode : GroupMode) (j : JoinParts) : JoinBuilder :=
  let join : JoinBuilder := { expr := .text j.expr, aliasName := j.aliasName }
  let join := match j.guard with
    | none => join
    | some g => join.on (.text g)
  match mode with
  | .sync => join
  | .async => join.async
  | .limited n => join.limitTo n

/-- The query in the making, clause by clause. -/
def QueryParts.builder (q : QueryParts) : QueryBuilder :=
  let query := QueryBuilder.fromSource {} q.source q.aliasName
  let query := q.groups.foldl (fun query g => query.joinGroup (g.joins.map (·.builder g.mode))) query
  let query := match q.restriction with
    | none => query
    | some w => query.restrict (.text w)
  query.select (q.fields.map fun (name, text) => (name, .text text))

/-! ## Written -/

/-- What the text of a query consists of, but for blanks. -/
inductive Piece where
  | fragment (text : String)
  | mark (m : Mark)

namespace Piece

abbrev keyword (k : Keyword) : Piece := .fragment k.word

def text : Piece → String
  | .fragment s => s
  | .mark m => String.singleton m.char

end Piece

/-- `expr as alias [on guard]`. -/
def JoinParts.pieces (j : JoinParts) : List Piece :=
  .fragment j.expr :: .keyword .as' :: .fragment j.aliasName ::
    match j.guard with
    | none => []
    | some g => [.keyword .on, .fragment g]

/-- `[async [(limit)]]`. -/
def GroupMode.pieces : GroupMode → List Piece
  | .sync => []
  | .async => [.keyword .async]
  | .limited n => [.keyword .async, .mark .leftParen, .fragment (toString n), .mark .rightParen]

/-- `join …, … [async [(limit)]]`. -/
def GroupParts.pieces (g : GroupParts) : List Piece :=
  .keyword .join :: (List.intercalate [.mark .comma] (g.joins.map JoinParts.pieces) ++ g.mode.pieces)

/-- `field = expr`. -/
def fieldPieces (f : String × String) : List Piece := [.fragment f.1, .fragment "=", .fragment f.2]

/-- All clauses in order. -/
def QueryParts.pieces (q : QueryParts) : List Piece :=
  [Piece.keyword .from', .fragment q.source, .keyword .as', .fragment q.aliasName] ++
    (q.groups.flatMap GroupParts.pieces ++
      ((match q.restriction with
        | none => []
        | some w => [Piece.keyword .where', .fragment w]) ++
      ([Piece.keyword .select, .keyword .new, .mark .leftBrace] ++
        (List.intercalate [Piece.mark .comma] (q.fields.map fieldPieces) ++ [Piece.mark .rightBrace]))))

/-- What may follow a fragment: nothing, a blank or a mark. -/
def Breaks (text : List Char) : Prop := ∀ c ∈ text.head?, isBlank c ∨ ∃ m : Mark, m.char = c

/-- The text is the pieces one after another, with any blanks around them but at least one where a
fragment would run into a fragment. -/
inductive Written : List Piece → List Char → Prop where
  | done {blanks : List Char} (h : ∀ c ∈ blanks, isBlank c) : Written [] blanks
  | mark {blanks text : List Char} {pieces : List Piece} (m : Mark) (h : ∀ c ∈ blanks, isBlank c)
      (rest : Written pieces text) : Written (.mark m :: pieces) (blanks ++ m.char :: text)
  | fragment {blanks text : List Char} {pieces : List Piece} (s : String)
      (h : ∀ c ∈ blanks, isBlank c) (rest : Written pieces text) (breaks : Breaks text) :
      Written (.fragment s :: pieces) (blanks ++ (s.toList ++ text))

/-- The pieces with one blank between each two. -/
def spell (pieces : List Piece) : String := " ".intercalate (pieces.map Piece.text)

theorem Written.cons_blank {pieces : List Piece} {text : List Char} (h : Written pieces text) :
    Written pieces (' ' :: text) := by
  have hblank : isBlank ' ' := by decide
  have hcons : ∀ blanks : List Char, (∀ c ∈ blanks, isBlank c) → ∀ c ∈ ' ' :: blanks, isBlank c :=
    fun blanks h c hc => (List.mem_cons.mp hc).elim (fun he => he ▸ hblank) (h c)
  cases h with
  | done h => exact .done (hcons _ h)
  | mark m h rest => exact .mark m (hcons _ h) rest
  | fragment s h rest breaks => exact .fragment s (hcons _ h) rest breaks

theorem written_spell (pieces : List Piece) : Written pieces (spell pieces).toList := by
  induction pieces with
  | nil => exact .done (by simp [spell])
  | cons p rest ih =>
    -- after a piece stands nothing or a blank
    have hrest : ∃ text, (spell (p :: rest)).toList = p.text.toList ++ text ∧ Written rest text ∧
        Breaks text := by
      cases rest with
      | nil => exact ⟨[], by simp [spell], .done (by simp), by simp [Breaks]⟩
      | cons p' rest =>
        refine ⟨' ' :: (spell (p' :: rest)).toList, ?_, ih.cons_blank, ?_⟩
        · unfold spell
          rw [List.map_cons, List.map_cons, String.intercalate_cons_cons, String.toList_append,
            String.toList_append, List.append_assoc]
          rfl
        · intro c hc
          obtain rfl : ' ' = c := by simpa using hc
          exact .inl (by decide)
    obtain ⟨text, htext, hw, hb⟩ := hrest
    rw [htext]
    cases p with
    | fragment s =>
      show Written _ ([] ++ (s.toList ++ text))
      exact .fragment s (by simp) hw hb
    | mark m =>
      rw [Piece.text, String.toList_singleton]
      show Written _ ([] ++ m.char :: text)
      exact .mark m (by simp) hw

/-! ## The tokens of pieces -/

theorem Breaks.apart {text : List Char} (h : Breaks text) : Apart text := by
  cases text with
  | nil => exact .nil
  | cons c rest =>
    rcases h c rfl with hc | ⟨m, rfl⟩
    · exact .blank rest hc
    · exact m.apart rest

/-- The tokens of one piece. -/
def Piece.Lexes : Piece → List Token → Prop
  | .fragment s, ts => RowQuery.Lexes s.toList ts
  | .mark m, ts => ts = [m.token]

inductive Lexed : List Piece → List Token → Prop where
  | nil : Lexed [] []
  | cons {p : Piece} {pieces : List Piece} {ts us : List Token} (h : p.Lexes ts)
      (rest : Lexed pieces us) : Lexed (p :: pieces) (ts ++ us)

theorem Lexed.append {ps qs : List Piece} {ts us : List Token} (hp : Lexed ps ts)
    (hq : Lexed qs us) : Lexed (ps ++ qs) (ts ++ us) := by
  induction hp with
  | nil => exact hq
  | cons h _ ih =>
    rw [List.append_assoc]
    exact .cons h ih

theorem Lexed.unique {pieces : List Piece} {ts us : List Token} (h : Lexed pieces ts)
    (h' : Lexed pieces us) : ts = us := by
  induction h generalizing us with
  | nil => cases h'; rfl
  | @cons p pieces ts us hp _ ih =>
    cases h' with
    | @cons _ _ ts' us' hp' hrest' =>
      have hfirst : ts = ts' := by
        cases p with
        | fragment s => exact Lexes.unique hp hp'
        | mark m => exact hp.trans hp'.symm
      rw [hfirst, ih hrest']

/-- However the pieces are written, the text has their tokens. -/
theorem lexes_of_written {pieces : List Piece} {text : List Char} (hw : Written pieces text)
    {ts : List Token} (ht : Lexed pieces ts) : Lexes text ts := by
  induction hw generalizing ts with
  | done h =>
    cases ht
    exact .blanks h
  | mark m h _ ih =>
    cases ht with
    | cons hm hrest =>
      obtain rfl := hm
      exact .blanks_append h ((ih hrest).mark m)
  | fragment s h _ breaks ih =>
    cases ht with
    | cons hs hrest => exact .blanks_append h (.append hs (ih hrest) breaks.apart)

end RowQuery
