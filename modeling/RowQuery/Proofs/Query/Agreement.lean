import RowQuery.Proofs.Expr.RoundTrip
import RowQuery.Proofs.Query.Parts

/-!
# Built and written queries agree

The builder and the reader make the same query of the same parts (`exists_query`). The reader is
followed clause by clause with `Leads`, which says where reading some pieces takes it. Two places
are not one constructor of `Query.Reading` but several: a join is complete with or without a guard,
and a group is complete with or without a limit in parentheses. There it is only said how the next
token is taken (`AfterItem`, `AtClause`).

The expression at the head of a clause ends where it would end as a text of its own, because none of
the tokens that follow it in a clause goes on with an expression.
-/

set_option autoImplicit false

namespace RowQuery
namespace Query

namespace Reading

/-! ## Reading pieces -/

/-- Reading the tokens leads from one reading to the other. -/
inductive Reaches : Reading → List Token → Reading → Prop where
  | refl (r : Reading) : Reaches r [] r
  | step {r r' r'' : Reading} {t : Token} {ts : List Token} (h : r.accept t = .ok r')
      (rest : Reaches r' ts r'') : Reaches r (t :: ts) r''

theorem Reaches.trans {r r' r'' : Reading} {ts us : List Token} (h : Reaches r ts r')
    (h' : Reaches r' us r'') : Reaches r (ts ++ us) r'' := by
  induction h with
  | refl => exact h'
  | step ht _ ih => exact .step ht (ih h')

/-- Reading the pieces leads from one reading to the other. -/
def Leads (r : Reading) (pieces : List Piece) (r' : Reading) : Prop :=
  ∃ ts, Lexed pieces ts ∧ Reaches r ts r'

namespace Leads

variable {r r' r'' : Reading} {ps qs : List Piece}

theorem refl (r : Reading) : Leads r [] r := ⟨[], .nil, .refl r⟩

theorem trans (h : Leads r ps r') (h' : Leads r' qs r'') : Leads r (ps ++ qs) r'' := by
  obtain ⟨ts, hts, hreach⟩ := h
  obtain ⟨us, hus, hreach'⟩ := h'
  exact ⟨ts ++ us, hts.append hus, hreach.trans hreach'⟩

/-- A piece that is one token. -/
theorem cons {p : Piece} {t : Token} (hp : p.Lexes [t]) (ht : r.accept t = .ok r')
    (rest : Leads r' ps r'') : Leads r (p :: ps) r'' := by
  obtain ⟨ts, hts, hreach⟩ := rest
  exact ⟨[t] ++ ts, .cons hp hts, .step ht hreach⟩

theorem keyword {k : Keyword} (ht : r.accept (.keyword k) = .ok r') (rest : Leads r' ps r'') :
    Leads r (.keyword k :: ps) r'' := rest.cons (RowQuery.Lexes.keyword k) ht

theorem mark {m : Mark} (ht : r.accept m.token = .ok r') (rest : Leads r' ps r'') :
    Leads r (.mark m :: ps) r'' := rest.cons rfl ht

theorem name {n : String} (hn : IsName n) (ht : r.accept (.identifier n) = .ok r')
    (rest : Leads r' ps r'') : Leads r (.fragment n :: ps) r'' :=
  rest.cons (RowQuery.Lexes.name hn.isWord hn.noKeyword) ht

end Leads

theorem Reaches.ofExpr {goOn : Expr.Reading → Reading}
    {finish : Token → Expr → Except Complaint Reading}
    (h : ∀ r t, (goOn r).accept t = acceptExpr r t goOn (finish t)) {r r' : Expr.Reading}
    {ts : List Token} (hr : r.Reaches ts r') : Reaches (goOn r) ts (goOn r') := by
  induction hr with
  | refl => exact .refl _
  | step ht _ ih =>
    refine .step ?_ ih
    rw [h, acceptExpr, ht]

/-- An expression is read whole, and the next token is taken where it ends. -/
theorem reaches_expr (goOn : Expr.Reading → Reading)
    {finish : Token → Expr → Except Complaint Reading}
    (h : ∀ r t, (goOn r).accept t = acceptExpr r t goOn (finish t)) {ts : List Token} {e : Expr}
    (he : Expr.Derives .disjunction ts e) :
    ∃ r, Reaches (goOn .start) ts (goOn r) ∧
      ∀ t : Token, t.continuesExpr = false → (goOn r).accept t = finish t e := by
  obtain ⟨r, hreach, hend⟩ := Expr.complete_of_derives he
  refine ⟨r, .ofExpr h hreach, fun t ht => ?_⟩
  rw [h, acceptExpr, hend t ht]

/-- The text of an expression is read whole, and the next token is taken where it ends. -/
theorem leads_expr (goOn : Expr.Reading → Reading)
    {finish : Token → Expr → Except Complaint Reading}
    (h : ∀ r t, (goOn r).accept t = acceptExpr r t goOn (finish t)) {text : String} {e : Expr}
    (he : Expr.parse text = .ok e) :
    ∃ r, Leads (goOn .start) [.fragment text] (goOn r) ∧
      ∀ t : Token, t.continuesExpr = false → (goOn r).accept t = finish t e := by
  obtain ⟨ts, hlex, hder⟩ := Expr.parse_eq_ok_iff.mp he
  obtain ⟨r, hreach, hend⟩ := reaches_expr goOn h hder
  refine ⟨r, ⟨ts ++ [], .cons hlex .nil, ?_⟩, hend⟩
  rw [List.append_nil]
  exact hreach

/-- The next token is one after a complete join, unless it goes on with the expression before it
or begins a guard. -/
def AfterItem (r : Reading) (d : Draft) (items : List Item) : Prop :=
  ∀ t : Token, t.continuesExpr = false → t ≠ .keyword .on → r.accept t = acceptAfterItem d items t

/-- The next token is one between clauses, if it can begin a clause. -/
def AtClause (r : Reading) (d : Draft) : Prop :=
  ∀ k : Keyword, k = .join ∨ k = .where' ∨ k = .select → r.accept (.keyword k) =
    acceptClause d (.keyword k)

end Reading

open Reading

/-! ## Joins -/

theorem resolve_text {text : String} {e : Expr} (h : Expr.parse text = .ok e) :
    (ExprSource.text text).resolve = .ok e := by
  rw [ExprSource.resolve, h]
  rfl

theorem build_join {b : JoinBuilder} {e : Expr} {guard : Option Expr} (hlimit : b.limit ≠ some 0)
    (he : b.expr.resolve = .ok e) (hguard : b.guard.mapM ExprSource.resolve = .ok guard) :
    b.build = .ok ⟨b.aliasName, e, guard, if b.isAsync then .async b.limit b.executor else .sync⟩ := by
  have hzero : ¬(b.limit == some 0) = true := by simpa using hlimit
  unfold JoinBuilder.build
  rw [if_neg hzero, he, hguard]
  rfl

theorem builder_eq (j : JoinParts) (mode : GroupMode) : j.builder mode =
    { expr := .text j.expr, aliasName := j.aliasName, guard := j.guard.map .text,
      isAsync := mode.dispatch.isAsync, limit := mode.dispatch.limit? } := by
  obtain ⟨expr, aliasName, guard⟩ := j
  cases guard <;> cases mode <;> rfl

/-- The join of an item. -/
def Item.toJoin (dispatch : Dispatch) (i : Item) : Join := ⟨i.aliasName, i.expr, i.guard, dispatch⟩

theorem build_builder {j : JoinParts} {mode : GroupMode} (hmode : mode.WellFormed) {e : Expr}
    {guard : Option Expr} (he : Expr.parse j.expr = .ok e)
    (hguard : (j.guard.map ExprSource.text).mapM ExprSource.resolve = .ok guard) :
    (j.builder mode).build = .ok (Item.toJoin mode.dispatch ⟨j.aliasName, e, guard⟩) := by
  have hlimit : mode.dispatch.limit? ≠ some 0 := by
    cases mode with
    | sync => nofun
    | async => nofun
    | limited n =>
      rintro hn
      cases hn
      exact absurd hmode.1 (by decide)
  rw [builder_eq, build_join hlimit (resolve_text he) hguard]
  cases mode <;> rfl

/-- A join is one item, built or read. -/
theorem exists_item {j : JoinParts} (h : j.WellFormed) : ∃ item : Item,
    (∀ mode : GroupMode, mode.WellFormed →
      (j.builder mode).build = .ok (item.toJoin mode.dispatch)) ∧
    ∀ d before, ∃ r, Leads (.joinExpr d before .start) j.pieces r ∧
      r.AfterItem d (before ++ [item]) := by
  obtain ⟨e, he⟩ := h.expr
  have halias : ∀ d before, Leads (.joinExpr d before .start)
      [.fragment j.expr, .keyword .as', .fragment j.aliasName]
      (.joined d before ⟨j.aliasName, e, none⟩) := by
    intro d before
    obtain ⟨r, hr, hend⟩ := leads_expr (.joinExpr d before) (fun _ _ => rfl) he
    exact hr.trans (.keyword (hend _ rfl) (.name h.aliasName rfl (.refl _)))
  unfold JoinParts.pieces
  cases hguard : j.guard with
  | none =>
    refine ⟨⟨j.aliasName, e, none⟩, fun mode hmode => ?_, fun d before => ⟨_, halias d before, ?_⟩⟩
    · exact build_builder hmode he (by rw [hguard]; rfl)
    · intro t _ hon
      unfold accept
      dsimp only
      split
      · exact absurd rfl hon
      · rfl
  | some g =>
    obtain ⟨guard, hg⟩ := h.guard g (by rw [hguard]; rfl)
    refine ⟨⟨j.aliasName, e, some guard⟩, fun mode hmode => ?_, fun d before => ?_⟩
    · refine build_builder hmode he ?_
      rw [hguard, Option.map_some, Option.mapM_some, resolve_text hg]
      rfl
    · obtain ⟨r, hr, hend⟩ := leads_expr (.joinGuard d before ⟨j.aliasName, e, none⟩)
        (fun _ _ => rfl) hg
      have hon : Leads (.joined d before ⟨j.aliasName, e, none⟩) [.keyword .on, .fragment g] _ :=
        .keyword rfl hr
      exact ⟨_, (halias d before).trans hon, fun t ht _ => hend t ht⟩

/-- The joins of a group are its items, built or read. -/
theorem exists_items {joins : List JoinParts} (hne : joins ≠ []) (h : ∀ j ∈ joins, j.WellFormed) :
    ∃ items : List Item,
      (∀ mode : GroupMode, mode.WellFormed →
        (joins.map (·.builder mode)).mapM JoinBuilder.build =
          .ok (items.map (Item.toJoin mode.dispatch))) ∧
      ∀ d before, ∃ r,
        Leads (.joinExpr d before .start)
          (List.intercalate [.mark .comma] (joins.map JoinParts.pieces)) r ∧
        r.AfterItem d (before ++ items) := by
  induction joins with
  | nil => exact absurd rfl hne
  | cons j joins ih =>
    obtain ⟨item, hbuild, hread⟩ := exists_item (h j (by simp))
    cases joins with
    | nil =>
      refine ⟨[item], fun mode hmode => ?_, ?_⟩
      · rw [List.map_singleton, List.mapM_cons, hbuild mode hmode]
        rfl
      · rw [List.map_singleton, List.intercalate_singleton]
        exact hread
    | cons j' joins =>
      obtain ⟨items, hbuilds, hreads⟩ := ih (by simp) fun j hj => h j (List.mem_cons_of_mem _ hj)
      refine ⟨item :: items, fun mode hmode => ?_, fun d before => ?_⟩
      · rw [List.map_cons, List.mapM_cons, hbuild mode hmode, hbuilds mode hmode]
        rfl
      · obtain ⟨r, hr, hend⟩ := hread d before
        obtain ⟨r', hr', hend'⟩ := hreads d (before ++ [item])
        have hcomma : r.accept .comma = .ok (.joinExpr d (before ++ [item]) .start) := by
          rw [hend .comma rfl (by simp)]
          rfl
        refine ⟨r', ?_, ?_⟩
        · rw [List.map_cons, List.map_cons, List.intercalate_cons_cons, ← List.map_cons,
            List.append_assoc]
          exact hr.trans (.mark hcomma hr')
        · rw [List.append_assoc] at hend'
          exact hend'

/-! ## Groups -/

/-- How a group ends does not matter to the clause that follows. -/
theorem exists_mode {mode : GroupMode} (h : mode.WellFormed) {r : Reading} {d : Draft}
    {items : List Item} (hr : r.AfterItem d items) :
    ∃ r', Leads r mode.pieces r' ∧ r'.AtClause (d.addGroup items mode.dispatch) := by
  cases mode with
  | sync =>
    refine ⟨r, .refl r, fun k hk => ?_⟩
    rcases hk with rfl | rfl | rfl
    all_goals exact hr _ rfl (by simp)
  | async =>
    refine ⟨.async d items, .keyword (hr _ rfl (by simp)) (.refl _), fun k hk => ?_⟩
    rcases hk with rfl | rfl | rfl
    all_goals rfl
  | limited n =>
    refine ⟨.clauses (d.addGroup items (.async (some n) none)), ?_, fun k _ => rfl⟩
    obtain ⟨hpos, hmax⟩ := h
    have htoInt : (Int64.ofInt n).toInt = n := by
      refine Int64.toInt_ofInt_of_le (by omega) ?_
      have : Int64.maxValue.toInt = 2 ^ 63 - 1 := rfl
      omega
    have hlex : RowQuery.Lexes (toString n).toList [.integer (Int64.ofInt n)] := by
      have hlex := RowQuery.Lexes.integer (Int64.ofInt n)
      rwa [htoInt] at hlex
    have hlimit : accept (.limit d items) (.integer (Int64.ofInt n)) =
        .ok (.limitEnd d items n) := by
      have hlt : 0 < Int64.ofInt n := by
        rw [Int64.lt_iff_toInt_lt, htoInt]
        exact Int.natCast_pos.mpr hpos
      unfold accept
      dsimp only
      rw [if_pos hlt, htoInt, Int.toNat_natCast]
    exact .keyword (hr _ rfl (by simp)) (.mark rfl (.cons hlex hlimit (.mark rfl (.refl _))))

theorem exists_group {g : GroupParts} (h : g.WellFormed) : ∃ group : JoinGroup,
    QueryBuilder.buildGroup (g.joins.map (·.builder g.mode)) = .ok group ∧
    ∀ (r : Reading) (d : Draft), r.AtClause d → ∃ r', Leads r g.pieces r' ∧
      r'.AtClause { d with groups := d.groups ++ [group] } := by
  obtain ⟨items, hbuild, hread⟩ := exists_items h.nonempty h.joins
  refine ⟨⟨items.map (Item.toJoin g.mode.dispatch)⟩, ?_, fun r d hr => ?_⟩
  · have hne : (g.joins.map (·.builder g.mode)).isEmpty = false := by
      rw [List.isEmpty_eq_false_iff, ne_eq, List.map_eq_nil_iff]
      exact h.nonempty
    unfold QueryBuilder.buildGroup
    rw [hne, hbuild g.mode h.mode]
    rfl
  · obtain ⟨r₁, hr₁, hend⟩ := hread d []
    obtain ⟨r₂, hr₂, hclause⟩ := exists_mode h.mode hend
    exact ⟨r₂, .keyword (hr .join (.inl rfl)) (hr₁.trans hr₂), hclause⟩

theorem exists_groups {groups : List GroupParts} (h : ∀ g ∈ groups, g.WellFormed) :
    ∃ built : List JoinGroup,
      (groups.map fun g => g.joins.map (·.builder g.mode)).mapM QueryBuilder.buildGroup = .ok built ∧
      ∀ (r : Reading) (d : Draft), r.AtClause d → ∃ r',
        Leads r (groups.flatMap GroupParts.pieces) r' ∧
        r'.AtClause { d with groups := d.groups ++ built } := by
  induction groups with
  | nil =>
    refine ⟨[], rfl, fun r d hr => ⟨r, .refl r, ?_⟩⟩
    rw [List.append_nil]
    exact hr
  | cons g groups ih =>
    obtain ⟨group, hbuild, hread⟩ := exists_group (h g (by simp))
    obtain ⟨built, hbuilds, hreads⟩ := ih fun g hg => h g (List.mem_cons_of_mem _ hg)
    refine ⟨group :: built, ?_, fun r d hr => ?_⟩
    · rw [List.map_cons, List.mapM_cons, hbuild, hbuilds]
      rfl
    · obtain ⟨r₁, hr₁, hclause₁⟩ := hread r d hr
      obtain ⟨r₂, hr₂, hclause₂⟩ := hreads r₁ _ hclause₁
      refine ⟨r₂, ?_, ?_⟩
      · rw [List.flatMap_cons]
        exact hr₁.trans hr₂
      · rw [List.append_assoc] at hclause₂
        exact hclause₂

/-! ## The other clauses -/

theorem exists_restriction {w : Option String} (h : ∀ t ∈ w, IsExprText t) :
    ∃ restriction : Option Restriction,
      (w.map RestrictionSource.text).mapM RestrictionSource.resolve = .ok restriction ∧
      ∀ (r : Reading) (d : Draft), r.AtClause d → d.restriction = none → ∃ r',
        Leads r (match w with
          | none => []
          | some w => [.keyword .where', .fragment w]) r' ∧
        r'.accept (.keyword .select) = .ok (.selectNew { d with restriction }) := by
  cases w with
  | none =>
    refine ⟨none, rfl, fun r d hr hd => ⟨r, .refl r, ?_⟩⟩
    rw [hr .select (.inr (.inr rfl)), ← hd]
    rfl
  | some w =>
    obtain ⟨e, he⟩ := h w rfl
    refine ⟨some (.ofExpr e), ?_, fun r d hr _ => ?_⟩
    · rw [Option.map_some, Option.mapM_some, RestrictionSource.resolve, he]
      rfl
    · obtain ⟨r', hr', hend⟩ := leads_expr (.restriction d) (fun _ _ => rfl) he
      exact ⟨_, .keyword (hr .where' (.inr (.inl rfl))) hr', hend _ rfl⟩

/-- The field is read as this name and this expression. -/
def FieldReads (f : String × String) (field : String × Expr) : Prop :=
  (∃ t, RowQuery.Lexes f.1.toList [t] ∧ t.fieldName? = some field.1) ∧
    Expr.parse f.2 = .ok field.2

theorem leads_field {f : String × String} {field : String × Expr} (h : FieldReads f field)
    (d : Draft) (before : Projection) :
    ∃ r, Leads (.fieldName d before) (fieldPieces f) r ∧
      r.accept .comma = .ok (.fieldName d (before ++ [field])) ∧
      r.accept .rightBrace = .ok (.closed (d.toQuery (before ++ [field]))) := by
  obtain ⟨⟨t, hlex, ht⟩, he⟩ := h
  obtain ⟨r, hr, hend⟩ := leads_expr (.fieldExpr d before field.1) (fun _ _ => rfl) he
  have haccept : accept (.fieldName d before) t = .ok (.fieldAssign d before field.1) := by
    unfold accept
    dsimp only
    rw [ht]
  have hassign : RowQuery.Lexes "=".toList [.assign] := .token (by decide) rfl .nil
  exact ⟨_, .cons hlex haccept (.cons hassign rfl hr), hend _ rfl, hend _ rfl⟩

theorem leads_fields {fields : List (String × String)} {projection : Projection}
    (h : List.Forall₂ FieldReads fields projection) (hne : fields ≠ []) (d : Draft)
    (before : Projection) :
    Leads (.fieldName d before)
      (List.intercalate [.mark .comma] (fields.map fieldPieces) ++ [.mark .rightBrace])
      (.closed (d.toQuery (before ++ projection))) := by
  induction h generalizing before with
  | nil => exact absurd rfl hne
  | @cons f field fields projection hfield hrest ih =>
    obtain ⟨r, hr, hcomma, hbrace⟩ := leads_field hfield d before
    cases hrest with
    | nil =>
      rw [List.map_singleton, List.intercalate_singleton]
      exact hr.trans (.mark hbrace (.refl _))
    | cons _ _ =>
      have htail := ih (by simp) (before ++ [field])
      rw [List.append_assoc] at htail
      rw [List.map_cons, List.map_cons, List.intercalate_cons_cons, ← List.map_cons,
        List.append_assoc, List.append_assoc]
      exact hr.trans (.mark hcomma htail)

theorem exists_fields {fields : List (String × String)} (hne : fields ≠ [])
    (h : ∀ f ∈ fields, IsFieldName f.1 ∧ IsExprText f.2) : ∃ projection : Projection,
      ((fields.map fun f => (f.1, ExprSource.text f.2)).mapM fun f => do
        return (f.1, ← f.2.resolve)) = .ok projection ∧
      ∀ d before, Leads (.fieldName d before)
        (List.intercalate [.mark .comma] (fields.map fieldPieces) ++ [.mark .rightBrace])
        (.closed (d.toQuery (before ++ projection))) := by
  suffices hreads : ∃ projection : Projection,
      ((fields.map fun f => (f.1, ExprSource.text f.2)).mapM fun f => do
        return (f.1, ← f.2.resolve)) = .ok projection ∧
      List.Forall₂ FieldReads fields projection by
    obtain ⟨projection, hbuild, hreads⟩ := hreads
    exact ⟨projection, hbuild, leads_fields hreads hne⟩
  clear hne
  induction fields with
  | nil => exact ⟨[], rfl, .nil⟩
  | cons f fields ih =>
    obtain ⟨hname, e, he⟩ := h f (by simp)
    obtain ⟨projection, hbuild, hreads⟩ := ih fun f hf => h f (List.mem_cons_of_mem _ hf)
    refine ⟨(f.1, e) :: projection, ?_, .cons ⟨hname.exists_token, he⟩ hreads⟩
    rw [List.map_cons, List.mapM_cons, hbuild]
    dsimp only
    rw [resolve_text he]
    rfl

/-! ## The whole query -/

theorem foldl_joinGroup (groups : List GroupParts) (b : QueryBuilder) :
    groups.foldl (fun query g => query.joinGroup (g.joins.map (·.builder g.mode))) b =
      { b with groups := b.groups ++ groups.map fun g => g.joins.map (·.builder g.mode) } := by
  induction groups generalizing b with
  | nil => simp
  | cons g groups ih =>
    rw [List.foldl_cons, ih, QueryBuilder.joinGroup, List.map_cons, List.append_assoc]
    rfl

theorem queryBuilder_eq (q : QueryParts) : q.builder =
    { source := some ⟨q.source, q.aliasName⟩,
      groups := q.groups.map fun g => g.joins.map (·.builder g.mode),
      restriction := q.restriction.map .text,
      projection := some (q.fields.map fun (name, text) => (name, .text text)) } := by
  unfold QueryParts.builder
  dsimp only
  rw [foldl_joinGroup]
  cases q.restriction <;> rfl

/-- What is read does not change what comes after. -/
theorem read_of_reaches {r r' : Reading} {front : List Lexeme}
    (h : Reaches r (front.map Lexeme.token) r') (rest : List Lexeme) :
    read r (front ++ rest) = read r' rest := by
  induction front generalizing r with
  | nil => cases h; rfl
  | cons lexeme front ih =>
    cases h with
    | step ht h' =>
      rw [List.cons_append, read, ht]
      exact ih h'

theorem parse_of_reaches {text : String} {ts : List Token} {q : Query}
    (hlex : RowQuery.Lexes text.toList ts) (h : Reaches .start ts (.closed q)) :
    parse text = .ok q := by
  obtain ⟨front, last, hfront, rfl⟩ := hlex.tokenizeFrom 0
  unfold parse tokenize
  rw [hfront]
  show ofTokens (front ++ [⟨.eof, last⟩]) = .ok q
  unfold ofTokens
  rw [read_of_reaches h]
  rfl

/-- A builder and a text make the same query of the same parts, however the text is written. -/
theorem exists_build_and_parse (q : QueryParts) (h : q.WellFormed) :
    ∃ query, q.builder.build = .ok query ∧ parse (spell q.pieces) = .ok query ∧
      ∀ text : String, Written q.pieces text.toList → parse text = .ok query := by
  obtain ⟨groups, hgroups, hreadGroups⟩ := exists_groups h.groups
  obtain ⟨restriction, hrestriction, hreadRestriction⟩ := exists_restriction h.restriction
  obtain ⟨projection, hfields, hreadFields⟩ := exists_fields h.nonempty h.fields
  let source : Source := ⟨q.source, q.aliasName⟩
  have hbuild : q.builder.build = .ok ⟨source, groups, restriction, projection⟩ := by
    rw [queryBuilder_eq]
    unfold QueryBuilder.build
    dsimp only
    rw [hgroups, hrestriction]
    show (Except.ok groups >>= fun groups => Except.ok restriction >>= fun restriction =>
      List.mapM _ _ >>= fun projection => pure (Query.mk source groups restriction projection)) = _
    rw [hfields]
    rfl
  have hleads : Leads .start q.pieces (.closed ⟨source, groups, restriction, projection⟩) := by
    obtain ⟨r₁, hr₁, hclause⟩ := hreadGroups (.clauses { source }) { source } fun _ _ => rfl
    obtain ⟨r₂, hr₂, hselect⟩ := hreadRestriction r₁ _ hclause rfl
    have hsource : Leads .start
        [.keyword .from', .fragment q.source, .keyword .as', .fragment q.aliasName]
        (.clauses { source }) :=
      .keyword rfl (.name h.source rfl (.keyword rfl (.name h.aliasName rfl (.refl _))))
    have hfields := hreadFields { source, groups, restriction } []
    exact hsource.trans (hr₁.trans (hr₂.trans
      (.keyword hselect (.keyword rfl (.mark rfl hfields)))))
  obtain ⟨ts, hts, hreach⟩ := hleads
  have hparse : ∀ text : String, Written q.pieces text.toList →
      parse text = .ok ⟨source, groups, restriction, projection⟩ :=
    fun text hw => parse_of_reaches (lexes_of_written hw hts) hreach
  exact ⟨_, hbuild, hparse _ (written_spell q.pieces), hparse⟩

/-- `from orders as o join o.items as i on o, customers as c async(4) where not c
select new { from = i }`. -/
theorem exists_build_and_parse_orders :
    let q : QueryParts := {
      source := "orders", aliasName := "o",
      groups := [⟨[⟨"o.items", "i", some "o"⟩, ⟨"customers", "c", none⟩], .limited 4⟩],
      restriction := some "not c", fields := [("from", "i")] }
    q.WellFormed ∧ ∃ query, q.builder.build = .ok query ∧ parse (spell q.pieces) = .ok query ∧
      ∀ text : String, Written q.pieces text.toList → parse text = .ok query := by
  intro q
  have htext : ∀ e : Expr, e.WellFormed → IsExprText e.text := fun e he =>
    ⟨e, Expr.parse_eq_ok_iff.mpr (Expr.prints_of_wellFormed he).disjunction⟩
  have hname : ∀ n : String, IsName n → IsExprText n := fun n hn => htext _ (.name hn)
  have hitems : IsExprText "o.items" := by
    have hitems : "o.items" = (Expr.path (.variable "o") [⟨"items", false⟩]).text := by decide +kernel
    rw [hitems]
    refine htext _ (.path (.name ⟨by decide, by decide⟩) nofun (by simp) fun s hs => ?_)
    obtain rfl := List.mem_singleton.mp hs
    exact .inl ⟨by decide, by decide⟩
  have hnot : IsExprText "not c" := by
    have hnot : "not c" = (Expr.not (.variable "c")).text := by decide +kernel
    rw [hnot]
    exact htext _ (.not (.name ⟨by decide, by decide⟩))
  have hq : q.WellFormed := by
    refine ⟨⟨by decide, by decide⟩, ⟨by decide, by decide⟩, ?_, ?_, by simp [q], ?_⟩
    · intro g hg
      obtain rfl := List.mem_singleton.mp hg
      refine ⟨by simp, ?_, ⟨by decide, by decide⟩⟩
      intro j hj
      rcases List.mem_cons.mp hj with rfl | hj
      · refine ⟨hitems, ⟨by decide, by decide⟩, fun g hg => ?_⟩
        obtain rfl := Option.mem_some.mp hg
        exact hname _ ⟨by decide, by decide⟩
      · obtain rfl := List.mem_singleton.mp hj
        exact ⟨hname _ ⟨by decide, by decide⟩, ⟨by decide, by decide⟩, nofun⟩
    · intro w hw
      obtain rfl := Option.mem_some.mp hw
      exact hnot
    · intro f hf
      obtain rfl := List.mem_singleton.mp hf
      exact ⟨.inr ⟨.from', rfl⟩, hname _ ⟨by decide, by decide⟩⟩
  exact ⟨hq, exists_build_and_parse q hq⟩

end Query
end RowQuery
