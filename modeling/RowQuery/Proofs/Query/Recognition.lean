import RowQuery.Proofs.Query.Reading

/-!
# The query reader recognises the grammar

The other half of `Proofs/Query/Reading`: what the grammar derives is read as derived. The reader is
followed along the derivation, one lemma a clause, each with what the next token finds: after a
join it is taken as `Reading.AfterItem` says, between clauses as `Reading.AtClause` says. Together
the two halves are `ofTokens_iff_derives`.
-/

set_option autoImplicit false

namespace RowQuery
namespace Query

open Reading

/-! ## Joins -/

/-- A join without a guard may still be given one. -/
theorem joined_afterItem (d : Draft) (items : List Item) (last : Item) :
    AfterItem (.joined d items last) d (items ++ [last]) := by
  intro t _ hon
  unfold accept
  dsimp only
  split
  · exact absurd rfl hon
  · rfl

theorem reaches_joined {ts : List Token} {e : Expr} (he : e.Spells ts) (name : String) (d : Draft)
    (items : List Item) :
    Reaches (.joinExpr d items .start) (ts ++ [.keyword .as', .identifier name])
      (.joined d items ⟨name, e, none⟩) := by
  obtain ⟨r, hreach, hend⟩ := reaches_expr (.joinExpr d items) (fun _ _ => rfl)
    (Expr.spells_iff_derives.mp he)
  have halias : (joinExpr d items r).accept (.keyword .as') = .ok (.joinAlias d items e) :=
    hend _ rfl
  exact hreach.trans (.step halias (.step rfl (.refl _)))

theorem reaches_join {dispatch : Dispatch} {ts : List Token} {j : Join} (h : j.Derives dispatch ts) :
    ∃ item : Item, j = item.toJoin dispatch ∧ ∀ d items, ∃ r,
      Reaches (.joinExpr d items .start) ts r ∧ r.AfterItem d (items ++ [item]) := by
  cases h with
  | @free ts e name he =>
    refine ⟨⟨name, e, none⟩, rfl, fun d items => ?_⟩
    exact ⟨_, reaches_joined he name d items, joined_afterItem _ _ _⟩
  | @guarded ts us e guard name he hg =>
    refine ⟨⟨name, e, some guard⟩, rfl, fun d items => ?_⟩
    obtain ⟨r, hreach, hend⟩ := reaches_expr (.joinGuard d items ⟨name, e, none⟩)
      (fun _ _ => rfl) (Expr.spells_iff_derives.mp hg)
    refine ⟨_, ?_, fun t ht _ => hend t ht⟩
    have hfree := reaches_joined he name d items
    simpa using hfree.trans (.step rfl hreach)

theorem reaches_joins {dispatch : Dispatch} {ts : List Token} {siblings : List Join}
    (h : Separated (Join.Derives dispatch) ts siblings) :
    ∃ items : List Item, siblings = items.map (Item.toJoin dispatch) ∧ ∀ d, ∃ r,
      Reaches (.joinExpr d [] .start) ts r ∧ r.AfterItem d items := by
  induction h with
  | one h =>
    obtain ⟨item, rfl, hreach⟩ := reaches_join h
    exact ⟨[item], rfl, fun d => hreach d []⟩
  | snoc _ last ih =>
    obtain ⟨items, rfl, hfront⟩ := ih
    obtain ⟨item, rfl, hlast⟩ := reaches_join last
    refine ⟨items ++ [item], by simp, fun d => ?_⟩
    obtain ⟨r, hr, hafter⟩ := hfront d
    obtain ⟨r', hr', hafter'⟩ := hlast d items
    have hcomma : r.accept .comma = .ok (.joinExpr d items .start) := hafter .comma rfl (by simp)
    exact ⟨r', hr.trans (.step hcomma hr'), hafter'⟩

/-! ## Groups -/

/-- The dispatch completes a group, and what follows finds the place between clauses. -/
theorem reaches_dispatch {dispatch : Dispatch} {us : List Token} (h : dispatch.Derives us)
    {r : Reading} {d : Draft} {items : List Item} (hr : r.AfterItem d items) :
    ∃ r', Reaches r us r' ∧ r'.AtClause (d.addGroup items dispatch) := by
  have hasync : r.accept (.keyword .async) = .ok (.async d items) := hr _ rfl (by simp)
  cases h with
  | sync =>
    refine ⟨r, .refl r, fun k hk => ?_⟩
    rcases hk with rfl | rfl | rfl
    all_goals exact hr _ rfl (by simp)
  | async =>
    refine ⟨.async d items, .step hasync (.refl _), fun k hk => ?_⟩
    rcases hk with rfl | rfl | rfl
    all_goals rfl
  | @limited n hpos =>
    refine ⟨.clauses (d.addGroup items (.async (some n.toInt.toNat) none)), ?_, fun k _ => rfl⟩
    have hlimit : accept (.limit d items) (.integer n) = .ok (.limitEnd d items n.toInt.toNat) :=
      if_pos hpos
    exact .step hasync (.step rfl (.step hlimit (.step rfl (.refl _))))

theorem reaches_group {ts : List Token} {g : JoinGroup} (h : g.Derives ts) {r : Reading} {d : Draft}
    (hr : r.AtClause d) :
    ∃ r', Reaches r ts r' ∧ r'.AtClause { d with groups := d.groups ++ [g] } := by
  cases h with
  | group joins mode =>
    obtain ⟨items, rfl, hjoins⟩ := reaches_joins joins
    obtain ⟨r₁, hr₁, hafter⟩ := hjoins d
    obtain ⟨r₂, hr₂, hclause⟩ := reaches_dispatch mode hafter
    have hjoin : r.accept (.keyword .join) = .ok (.joinExpr d [] .start) := hr .join (.inl rfl)
    exact ⟨r₂, .step hjoin (hr₁.trans hr₂), hclause⟩

theorem reaches_groups {ts : List Token} {groups : List JoinGroup}
    (h : Repeated JoinGroup.Derives ts groups) {r : Reading} {d : Draft} (hr : r.AtClause d) :
    ∃ r', Reaches r ts r' ∧ r'.AtClause { d with groups := d.groups ++ groups } := by
  induction h with
  | nil => exact ⟨r, .refl r, by simpa using hr⟩
  | snoc _ last ih =>
    obtain ⟨r₁, hr₁, hclause₁⟩ := ih
    obtain ⟨r₂, hr₂, hclause₂⟩ := reaches_group last hclause₁
    exact ⟨r₂, hr₁.trans hr₂, by simpa using hclause₂⟩

/-! ## The other clauses -/

theorem reaches_restriction {ts : List Token} {restriction : Option Restriction}
    (h : Restriction.Derives ts restriction) {r : Reading} {d : Draft} (hr : r.AtClause d)
    (hd : d.restriction = none) :
    ∃ r', Reaches r ts r' ∧
      r'.accept (.keyword .select) = .ok (.selectNew { d with restriction }) := by
  cases h with
  | none =>
    refine ⟨r, .refl r, ?_⟩
    rw [hr .select (.inr (.inr rfl)), ← hd]
    rfl
  | some he =>
    obtain ⟨r', hreach, hend⟩ := reaches_expr (.restriction d) (fun _ _ => rfl)
      (Expr.spells_iff_derives.mp he)
    have hwhere : r.accept (.keyword .where') = .ok (.restriction d .start) :=
      hr .where' (.inr (.inl rfl))
    exact ⟨_, .step hwhere hreach, hend _ rfl⟩

/-- After a field comes the next one or the end of the query. -/
def AfterField (r : Reading) (d : Draft) (fields : Projection) : Prop :=
  r.accept .comma = .ok (.fieldName d fields) ∧
    r.accept .rightBrace = .ok (.closed (d.toQuery fields))

theorem reaches_field {ts : List Token} {f : String × Expr} (h : Field.Derives ts f) (d : Draft)
    (before : Projection) :
    ∃ r, Reaches (.fieldName d before) ts r ∧ AfterField r d (before ++ [f]) := by
  cases h with
  | @name ts e name he =>
    obtain ⟨r, hreach, hend⟩ := reaches_expr (.fieldExpr d before name) (fun _ _ => rfl)
      (Expr.spells_iff_derives.mp he)
    exact ⟨_, .step rfl (.step rfl hreach), hend _ rfl, hend _ rfl⟩
  | @keyword ts e k he =>
    obtain ⟨r, hreach, hend⟩ := reaches_expr (.fieldExpr d before k.word) (fun _ _ => rfl)
      (Expr.spells_iff_derives.mp he)
    exact ⟨_, .step rfl (.step rfl hreach), hend _ rfl, hend _ rfl⟩

theorem reaches_fields {ts : List Token} {fields : Projection}
    (h : Separated Field.Derives ts fields) (d : Draft) :
    ∃ r, Reaches (.fieldName d []) ts r ∧ AfterField r d fields := by
  induction h with
  | one h => exact reaches_field h d []
  | @snoc ts us parts f _ last ih =>
    obtain ⟨r₁, hr₁, hcomma, -⟩ := ih
    obtain ⟨r₂, hr₂, hafter⟩ := reaches_field last d parts
    exact ⟨r₂, hr₁.trans (.step hcomma hr₂), hafter⟩

/-! ## The whole query -/

theorem reaches_of_derives {ts : List Token} {q : Query} (h : q.Derives ts) :
    Reaches .start ts (.closed q) := by
  cases h with
  | @query joins wheres fields source groups restriction projection hgroups hrestriction hfields =>
    have hsource : Reaches .start
        [.keyword .from', .identifier source.name, .keyword .as', .identifier source.aliasName]
        (.clauses { source }) := .step rfl (.step rfl (.step rfl (.step rfl (.refl _))))
    obtain ⟨r₁, hr₁, hclause⟩ := reaches_groups hgroups
      (r := .clauses { source }) (d := { source }) fun _ _ => rfl
    obtain ⟨r₂, hr₂, hselect⟩ := reaches_restriction hrestriction hclause rfl
    obtain ⟨r₃, hr₃, -, hbrace⟩ := reaches_fields hfields { source, groups, restriction }
    have hprojection := hr₃.trans (.step hbrace (.refl _))
    have hopen : Reaches (.selectNew { source, groups, restriction })
        (.keyword .new :: .leftBrace :: (fields ++ [.rightBrace])) _ :=
      .step rfl (.step rfl hprojection)
    exact ((hsource.trans hr₁).trans hr₂).trans (.step hselect hopen)

theorem ofTokens_of_derives {front : List Lexeme} {q : Query}
    (h : q.Derives (front.map Lexeme.token)) (position : Nat) :
    ofTokens (front ++ [⟨.eof, position⟩]) = .ok q := by
  unfold ofTokens
  rw [read_of_reaches (reaches_of_derives h)]
  rfl

/-- The grammar derives at most one query from a list of tokens. -/
theorem Derives.unique {ts : List Token} {q q' : Query} (h : q.Derives ts) (h' : q'.Derives ts) :
    q = q' := by
  have htokens : (ts.map fun t => (⟨t, 0⟩ : Lexeme)).map Lexeme.token = ts := by
    rw [List.map_map]
    exact List.map_id ts
  have hq := ofTokens_of_derives (htokens.symm ▸ h) 0
  exact Except.ok.inj (hq.symm.trans (ofTokens_of_derives (htokens.symm ▸ h') 0))

/-- A list of tokens that ends in `Token.eof` is read as `q` exactly when the grammar derives `q`
from what is before the end, and the grammar derives no two queries from the same tokens. -/
theorem ofTokens_eq_ok_iff_derives (front : List Lexeme) (position : Nat) :
    (∀ q, ofTokens (front ++ [⟨.eof, position⟩]) = .ok q ↔ q.Derives (front.map Lexeme.token)) ∧
    ∀ (ts : List Token) (q q' : Query), q.Derives ts → q'.Derives ts → q = q' := by
  refine ⟨fun q => ⟨fun h => ?_, fun h => ofTokens_of_derives h position⟩,
    fun _ _ _ h h' => h.unique h'⟩
  obtain ⟨ts, hts, hq⟩ := derives_of_ofTokens h
  rw [List.map_append] at hts
  obtain ⟨hfronts, -⟩ := List.append_inj' hts rfl
  rw [hfronts]
  exact hq

/-- A text is read as a query when its tokens are derived as one. -/
theorem parse_eq_ok_iff {text : String} {q : Query} :
    parse text = .ok q ↔ ∃ ts, RowQuery.Lexes text.toList ts ∧ q.Derives ts := by
  constructor
  · intro h
    unfold parse at h
    cases htokens : tokenize text with
    | error e => rw [htokens] at h; cases h
    | ok lexemes =>
      rw [htokens] at h
      obtain ⟨front, last, rfl, hlexes⟩ := lexes_of_tokenizeFrom htokens
      obtain ⟨ts, hts, hderives⟩ := derives_of_ofTokens h
      rw [List.map_append] at hts
      obtain ⟨rfl, -⟩ := List.append_inj' hts rfl
      exact ⟨_, hlexes, hderives⟩
  · rintro ⟨ts, hlexes, hderives⟩
    exact parse_of_reaches hlexes (reaches_of_derives hderives)

end Query
end RowQuery
