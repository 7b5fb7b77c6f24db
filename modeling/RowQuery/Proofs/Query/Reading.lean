import RowQuery.Proofs.Query.Agreement
import RowQuery.Proofs.Query.Grammar

/-!
# What a reading of a query has read

`Query.Reading.Covers r ts` says for every place between two tokens that the tokens read so far are
`ts`, and of which parts they consist. Every token keeps it so (`accept_covers`); at the end the
parts are a query of the grammar (`derives_of_read`). For the expression under way the account is
the one of `Expr.Reading.Covers`, and it ends as an expression by itself when the expression does.
-/

set_option autoImplicit false

namespace RowQuery

/-! ## Expressions by themselves -/

namespace Expr

theorem Listed.eof_not_mem {arguments : List (List Token × Expr)} {us : List Token}
    (h : Listed arguments us) (each : ∀ a ∈ arguments, .eof ∉ a.1) : .eof ∉ us := by
  induction h with
  | none => simp
  | last ts e => exact each (ts, e) List.mem_cons_self
  | more ts e _ ih =>
    have hfirst : .eof ∉ ts := each (ts, e) List.mem_cons_self
    have hrest := ih fun a ha => each a (List.mem_cons_of_mem _ ha)
    simp [hfirst, hrest]

/-- The end of the tokens is no part of an expression. -/
theorem Derives.eof_not_mem {rung : Rung} {ts : List Token} {e : Expr} (h : Derives rung ts e) :
    .eof ∉ ts := by
  have literal : ∀ {t : Token} {v : Value}, literalOf? t = some v → .eof ≠ t := by
    rintro t v hv rfl
    cases hv
  have negated : ∀ {t : Token} {v : Value}, negatedOf? t = some v → .eof ≠ t := by
    rintro t v hv rfl
    cases hv
  have dot : ∀ {t : Token} {optional : Bool}, dotOf? t = some optional → .eof ≠ t := by
    rintro t optional hd rfl
    cases hd
  have field : ∀ {t : Token} {name : String}, t.fieldName? = some name → .eof ≠ t := by
    rintro t name hn rfl
    cases hn
  induction h with
  | name n => simp
  | literal hv => simp [literal hv]
  | negative hv => simp [negated hv]
  | group _ ih => simp [ih]
  | property _ hd hn ih => simp [ih, dot hd, field hn]
  | call _ hn _ hl ih ihArguments =>
    have harguments := hl.eof_not_mem fun a ha => ihArguments a ha
    simp [ih, field hn, harguments]
  | ofAtom _ ih => exact ih
  | ofChain _ ih => exact ih
  | ofSum _ ih => exact ih
  | ofComparison _ ih => exact ih
  | ofNegation _ ih => exact ih
  | ofConjunction _ ih => exact ih
  | not _ ih => simp [ih]
  | add _ _ ihl ihr => simp [ihl, ihr]
  | compare op _ _ ihl ihr => simp [ihl, ihr]
  | and _ _ ihl ihr => simp [ihl, ihr]
  | or _ _ ihl ihr => simp [ihl, ihr]

/-- The expressions that tokens spell are those of the grammar of expressions. -/
theorem spells_iff_derives {ts : List Token} {e : Expr} :
    Spells ts e ↔ Derives .disjunction ts e := by
  constructor
  · rintro ⟨hinside, lexemes, position, rfl, hwhole⟩
    refine derives_of_ofTokens ?_ hwhole
    intro l hl heof
    exact hinside (heof ▸ List.mem_map_of_mem hl)
  · intro h
    have htokens : (ts.map fun t => (⟨t, 0⟩ : Lexeme)).map Lexeme.token = ts := by
      rw [List.map_map]
      exact List.map_id ts
    exact ⟨h.eof_not_mem, _, 0, htokens, ofTokens_of_derives (htokens.symm ▸ h) 0⟩

end Expr

/-! ## Lists of parts under way -/

section Parts

variable {α β : Type} {Part : List Token → α → Prop} {ts us : List Token} {parts : List α} {a : α}

theorem Separated.map {Part' : List Token → β → Prop} {f : α → β}
    (h : Separated Part ts parts) (hf : ∀ us a, Part us a → Part' us (f a)) :
    Separated Part' ts (parts.map f) := by
  induction h with
  | one h => exact .one (hf _ _ h)
  | snoc _ last ih =>
    rw [List.map_append]
    exact ih.snoc (hf _ _ last)

/-- The parts before the one under way: none, or some with a comma after the last. -/
def Listing (Part : List Token → α → Prop) (ts : List Token) (parts : List α) : Prop :=
  (ts = [] ∧ parts = []) ∨ ∃ us, ts = us ++ [.comma] ∧ Separated Part us parts

theorem Listing.nil : Listing Part [] [] := .inl ⟨rfl, rfl⟩

theorem Separated.comma (h : Separated Part ts parts) : Listing Part (ts ++ [.comma]) parts :=
  .inr ⟨ts, rfl, h⟩

theorem Listing.snoc (h : Listing Part ts parts) (last : Part us a) :
    Separated Part (ts ++ us) (parts ++ [a]) := by
  rcases h with ⟨rfl, rfl⟩ | ⟨vs, rfl, h⟩
  · exact .one last
  · rw [List.append_assoc]
    exact h.snoc last

end Parts

namespace Query

/-! ## What has been read -/

/-- The tokens are the item, however its group will be dispatched. -/
def Item.Covers (ts : List Token) (i : Item) : Prop :=
  ∀ dispatch, (i.toJoin dispatch).Derives dispatch ts

/-- The tokens are the source and the groups; there is no restriction yet. -/
structure Draft.Covers (d : Draft) (ts : List Token) : Prop where
  tokens : ∃ joins, ts = [.keyword .from', .identifier d.source.name, .keyword .as',
    .identifier d.source.aliasName] ++ joins ∧ Repeated JoinGroup.Derives joins d.groups
  unrestricted : d.restriction = none

/-- The tokens are everything before the projection. -/
def Draft.CoversAll (d : Draft) (ts : List Token) : Prop :=
  ∃ joins wheres, ts = [.keyword .from', .identifier d.source.name, .keyword .as',
      .identifier d.source.aliasName] ++ joins ++ wheres ∧
    Repeated JoinGroup.Derives joins d.groups ∧ Restriction.Derives wheres d.restriction

/-- The tokens of a group under way: those before it, and after `join` those that `Inside` is said
of. -/
def Draft.Joining (d : Draft) (Inside : List Token → Prop) (ts : List Token) : Prop :=
  ∃ as bs, ts = as ++ .keyword .join :: bs ∧ d.Covers as ∧ Inside bs

/-- The tokens of a projection under way: those before it, and after the brace those that `Inside`
is said of. -/
def Draft.Projecting (d : Draft) (Inside : List Token → Prop) (ts : List Token) : Prop :=
  ∃ as bs, ts = as ++ .keyword .select :: .keyword .new :: .leftBrace :: bs ∧ d.CoversAll as ∧
    Inside bs

/-- The reading has read these tokens. -/
def Reading.Covers : Reading → List Token → Prop
  | .start, ts => ts = []
  | .sourceName, ts => ts = [.keyword .from']
  | .sourceAs source, ts => ts = [.keyword .from', .identifier source]
  | .sourceAlias source, ts => ts = [.keyword .from', .identifier source, .keyword .as']
  | .clauses d, ts => d.Covers ts
  | .joinExpr d items r, ts => d.Joining (fun bs => ∃ cs es, bs = cs ++ es ∧
      Listing Item.Covers cs items ∧ r.Covers es) ts
  | .joinAlias d items e, ts => d.Joining (fun bs => ∃ cs es, bs = cs ++ (es ++ [.keyword .as']) ∧
      Listing Item.Covers cs items ∧ e.Spells es) ts
  | .joined d items last, ts => d.Joining (fun bs => ∃ cs es,
      bs = cs ++ (es ++ [.keyword .as', .identifier last.aliasName]) ∧
      Listing Item.Covers cs items ∧ last.expr.Spells es ∧ last.guard = none) ts
  | .joinGuard d items last r, ts => d.Joining (fun bs => ∃ cs es gs,
      bs = cs ++ (es ++ .keyword .as' :: .identifier last.aliasName :: .keyword .on :: gs) ∧
      Listing Item.Covers cs items ∧ last.expr.Spells es ∧ r.Covers gs) ts
  | .async d items, ts => d.Joining (fun bs => ∃ cs, bs = cs ++ [.keyword .async] ∧
      Separated Item.Covers cs items) ts
  | .limit d items, ts => d.Joining (fun bs => ∃ cs, bs = cs ++ [.keyword .async, .leftParen] ∧
      Separated Item.Covers cs items) ts
  | .limitEnd d items n, ts => d.Joining (fun bs => ∃ cs, ∃ k : Int64,
      bs = cs ++ [.keyword .async, .leftParen, .integer k] ∧ 0 < k ∧ n = k.toInt.toNat ∧
      Separated Item.Covers cs items) ts
  | .restriction d r, ts => ∃ as bs, ts = as ++ .keyword .where' :: bs ∧ d.Covers as ∧ r.Covers bs
  | .selectNew d, ts => ∃ as, ts = as ++ [.keyword .select] ∧ d.CoversAll as
  | .selectBrace d, ts => ∃ as, ts = as ++ [.keyword .select, .keyword .new] ∧ d.CoversAll as
  | .fieldName d fields, ts => d.Projecting (fun bs => Listing Field.Derives bs fields) ts
  | .fieldAssign d fields name, ts => d.Projecting (fun bs => ∃ cs, ∃ t : Token, bs = cs ++ [t] ∧
      Listing Field.Derives cs fields ∧ t.fieldName? = some name) ts
  | .fieldExpr d fields name r, ts => d.Projecting (fun bs => ∃ cs es, ∃ t : Token,
      bs = cs ++ t :: .assign :: es ∧
      Listing Field.Derives cs fields ∧ t.fieldName? = some name ∧ r.Covers es) ts
  | .closed q, ts => q.Derives ts
  | .done q, ts => ∃ us, ts = us ++ [.eof] ∧ q.Derives us

/-! ## Parts that are complete -/

section Complete

variable {d : Draft} {items : List Item} {as bs cs : List Token} {e : Expr} {name : String}

theorem Item.covers_free (he : e.Spells cs) :
    Item.Covers (cs ++ [.keyword .as', .identifier name]) ⟨name, e, none⟩ :=
  fun _ => .free he

theorem Item.covers_guarded {guard : Expr} (he : e.Spells bs) (hg : guard.Spells cs) :
    Item.Covers (bs ++ .keyword .as' :: .identifier name :: .keyword .on :: cs)
      ⟨name, e, some guard⟩ :=
  fun _ => .guarded he hg

/-- A group is complete with its dispatch. -/
theorem Draft.covers_addGroup {dispatch : Dispatch} (hd : d.Covers as)
    (hitems : Separated Item.Covers bs items) (hmode : dispatch.Derives cs) :
    (d.addGroup items dispatch).Covers (as ++ .keyword .join :: (bs ++ cs)) := by
  obtain ⟨⟨joins, rfl, hjoins⟩, hnone⟩ := hd
  have hsiblings : Separated (Join.Derives dispatch) bs (items.map (Item.toJoin dispatch)) :=
    hitems.map fun us i hi => hi dispatch
  refine ⟨⟨_, List.append_assoc _ _ _, hjoins.snoc (.group hsiblings hmode)⟩, hnone⟩

theorem Draft.Covers.coversAll (hd : d.Covers as) : d.CoversAll as := by
  obtain ⟨⟨joins, rfl, hjoins⟩, hnone⟩ := hd
  refine ⟨joins, [], (List.append_nil _).symm, hjoins, ?_⟩
  rw [hnone]
  exact .none

theorem Draft.covers_restriction (hd : d.Covers as) (he : e.Spells bs) :
    Draft.CoversAll { d with restriction := some (.ofExpr e) } (as ++ .keyword .where' :: bs) := by
  obtain ⟨⟨joins, rfl, hjoins⟩, -⟩ := hd
  exact ⟨joins, _, rfl, hjoins, .some he⟩

theorem field_derives {t : Token} (hname : t.fieldName? = some name) (he : e.Spells bs) :
    Field.Derives (t :: .assign :: bs) (name, e) := by
  cases t with
  | identifier n =>
    cases hname
    exact .name he
  | keyword k =>
    cases hname
    exact .keyword he
  | _ => cases hname

theorem Draft.derives_toQuery {fields : Projection} (hd : d.CoversAll as)
    (hfields : Separated Field.Derives bs fields) :
    (d.toQuery fields).Derives
      (as ++ .keyword .select :: .keyword .new :: .leftBrace :: (bs ++ [.rightBrace])) := by
  obtain ⟨joins, wheres, rfl, hjoins, hwheres⟩ := hd
  exact .query hjoins hwheres hfields

end Complete

/-! ## One token -/

namespace Reading

variable {d : Draft} {items : List Item} {as bs : List Token} {t : Token} {r' : Reading}

theorem require_eq_ok {token found : Token} {next r : Reading}
    (h : require token found next = .ok r) : found = token ∧ r = next := by
  unfold require at h
  split at h
  · next heq =>
    cases h
    exact ⟨heq, rfl⟩
  · cases h

theorem requireName_eq_ok {role : NameRole} {found : Token} {next : String → Reading} {r : Reading}
    (h : requireName role found next = .ok r) : ∃ name, found = .identifier name ∧ r = next name := by
  unfold requireName at h
  split at h
  · next name =>
    cases h
    exact ⟨name, rfl, rfl⟩
  · cases h

/-- A token of an expression goes on with it, or the expression is complete by itself. -/
theorem acceptExpr_eq_ok {r : Expr.Reading} {goOn : Expr.Reading → Reading}
    {finish : Expr → Except Complaint Reading} (hr : r.Covers bs)
    (h : acceptExpr r t goOn finish = .ok r') :
    (∃ s, s.Covers (bs ++ [t]) ∧ r' = goOn s) ∨ ∃ e : Expr, e.Spells bs ∧ finish e = .ok r' := by
  unfold acceptExpr at h
  split at h
  · cases h
  · next s hstep =>
    cases h
    exact .inl ⟨s, Expr.Reading.accept_covers hr hstep, rfl⟩
  · next e hstep =>
    exact .inr ⟨e, Expr.spells_iff_derives.mpr (Expr.Reading.accept_covers hr hstep), h⟩

theorem acceptClause_covers (hd : d.Covers as) (h : acceptClause d t = .ok r') :
    r'.Covers (as ++ [t]) := by
  unfold acceptClause at h
  split at h
  · cases h
    exact ⟨as, [], rfl, hd, [], [], rfl, .nil, Expr.Reading.covers_start⟩
  · cases h
    exact ⟨as, [], rfl, hd, Expr.Reading.covers_start⟩
  · obtain ⟨rfl, rfl⟩ := require_eq_ok h
    exact ⟨as, rfl, hd.coversAll⟩

theorem acceptAfterItem_covers (hd : d.Covers as) (hitems : Separated Item.Covers bs items)
    (h : acceptAfterItem d items t = .ok r') :
    r'.Covers (as ++ .keyword .join :: (bs ++ [t])) := by
  unfold acceptAfterItem at h
  split at h
  · cases h
    exact ⟨as, _, rfl, hd, _, [], (List.append_nil _).symm, hitems.comma,
      Expr.Reading.covers_start⟩
  · cases h
    exact ⟨as, _, rfl, hd, bs, rfl, hitems⟩
  · have hgroup := acceptClause_covers (Draft.covers_addGroup hd hitems .sync) h
    simpa using hgroup

/-- Reading one token keeps account of what has been read. The cases are the places between two
tokens; only an expression under way leaves more than one of them possible. -/
theorem accept_covers {r : Reading} {ts : List Token} (hr : r.Covers ts)
    (h : r.accept t = .ok r') : r'.Covers (ts ++ [t]) := by
  cases r with
  | start =>
    obtain ⟨rfl, rfl⟩ := require_eq_ok h
    rw [show ts = [] from hr]
    rfl
  | sourceName =>
    obtain ⟨name, rfl, rfl⟩ := requireName_eq_ok h
    rw [show ts = _ from hr]
    rfl
  | sourceAs source =>
    obtain ⟨rfl, rfl⟩ := require_eq_ok h
    rw [show ts = _ from hr]
    rfl
  | sourceAlias source =>
    obtain ⟨name, rfl, rfl⟩ := requireName_eq_ok h
    rw [show ts = _ from hr]
    exact ⟨⟨[], rfl, .nil⟩, rfl⟩
  | clauses d => exact acceptClause_covers hr h
  | joinExpr d items r =>
    obtain ⟨as, bs, rfl, hd, cs, es, rfl, hitems, hr⟩ := hr
    rcases acceptExpr_eq_ok hr h with ⟨s, hs, rfl⟩ | ⟨e, he, h⟩
    · exact ⟨as, _, by simp, hd, cs, _, rfl, hitems, hs⟩
    · obtain ⟨rfl, rfl⟩ := require_eq_ok h
      exact ⟨as, _, by simp, hd, cs, es, rfl, hitems, he⟩
  | joinAlias d items e =>
    obtain ⟨as, bs, rfl, hd, cs, es, rfl, hitems, he⟩ := hr
    obtain ⟨name, rfl, rfl⟩ := requireName_eq_ok h
    exact ⟨as, _, by simp, hd, cs, es, rfl, hitems, he, rfl⟩
  | joined d items last =>
    obtain ⟨as, bs, rfl, hd, cs, es, rfl, hitems, he, hnone⟩ := hr
    unfold accept at h
    dsimp only at h
    split at h
    · cases h
      exact ⟨as, _, by simp, hd, cs, es, [], rfl, hitems, he, Expr.Reading.covers_start⟩
    · have hlast : Item.Covers (es ++ [.keyword .as', .identifier last.aliasName]) last := by
        obtain ⟨name, e, guard⟩ := last
        cases hnone
        exact Item.covers_free he
      simpa using acceptAfterItem_covers hd (hitems.snoc hlast) h
  | joinGuard d items last r =>
    obtain ⟨as, bs, rfl, hd, cs, es, gs, rfl, hitems, he, hr⟩ := hr
    rcases acceptExpr_eq_ok hr h with ⟨s, hs, rfl⟩ | ⟨guard, hguard, h⟩
    · exact ⟨as, _, by simp, hd, cs, es, _, rfl, hitems, he, hs⟩
    · simpa using acceptAfterItem_covers hd (hitems.snoc (Item.covers_guarded he hguard)) h
  | async d items =>
    obtain ⟨as, bs, rfl, hd, cs, rfl, hitems⟩ := hr
    unfold accept at h
    dsimp only at h
    split at h
    · cases h
      exact ⟨as, _, by simp, hd, cs, rfl, hitems⟩
    · simpa using acceptClause_covers (Draft.covers_addGroup hd hitems .async) h
  | limit d items =>
    obtain ⟨as, bs, rfl, hd, cs, rfl, hitems⟩ := hr
    unfold accept at h
    dsimp only at h
    split at h
    · next n =>
      split at h
      · next hpos =>
        cases h
        exact ⟨as, _, by simp, hd, cs, n, rfl, hpos, rfl, hitems⟩
      · cases h
    · cases h
  | limitEnd d items n =>
    obtain ⟨as, bs, rfl, hd, cs, k, rfl, hpos, rfl, hitems⟩ := hr
    obtain ⟨rfl, rfl⟩ := require_eq_ok h
    have hgroup := Draft.covers_addGroup hd hitems (.limited hpos)
    simpa [Covers] using hgroup
  | restriction d r =>
    obtain ⟨as, bs, rfl, hd, hr⟩ := hr
    rcases acceptExpr_eq_ok hr h with ⟨s, hs, rfl⟩ | ⟨e, he, h⟩
    · exact ⟨as, _, by simp, hd, hs⟩
    · obtain ⟨rfl, rfl⟩ := require_eq_ok h
      exact ⟨_, rfl, Draft.covers_restriction hd he⟩
  | selectNew d =>
    obtain ⟨as, rfl, hd⟩ := hr
    obtain ⟨rfl, rfl⟩ := require_eq_ok h
    exact ⟨as, by simp, hd⟩
  | selectBrace d =>
    obtain ⟨as, rfl, hd⟩ := hr
    obtain ⟨rfl, rfl⟩ := require_eq_ok h
    exact ⟨as, [], by simp, hd, .nil⟩
  | fieldName d fields =>
    obtain ⟨as, bs, rfl, hd, hfields⟩ := hr
    unfold accept at h
    dsimp only at h
    split at h
    · next name hname =>
      cases h
      exact ⟨as, _, by simp, hd, bs, t, rfl, hfields, hname⟩
    · cases h
  | fieldAssign d fields name =>
    obtain ⟨as, bs, rfl, hd, cs, n, rfl, hfields, hname⟩ := hr
    obtain ⟨rfl, rfl⟩ := require_eq_ok h
    exact ⟨as, _, by simp, hd, cs, [], n, rfl, hfields, hname, Expr.Reading.covers_start⟩
  | fieldExpr d fields name r =>
    obtain ⟨as, bs, rfl, hd, cs, es, n, rfl, hfields, hname, hr⟩ := hr
    rcases acceptExpr_eq_ok hr h with ⟨s, hs, rfl⟩ | ⟨e, he, h⟩
    · exact ⟨as, _, by simp, hd, cs, _, n, rfl, hfields, hname, hs⟩
    · have hfields := hfields.snoc (field_derives hname he)
      split at h
      · cases h
        exact ⟨as, _, by simp, hd, hfields.comma⟩
      · obtain ⟨rfl, rfl⟩ := require_eq_ok h
        simpa [Covers] using Draft.derives_toQuery hd hfields
  | closed q =>
    unfold accept at h
    dsimp only at h
    split at h
    · next heof =>
      cases h
      exact ⟨ts, by rw [heof], hr⟩
    · cases h
  | done q => cases h

end Reading

/-! ## Runs -/

theorem covers_of_read {r r' : Reading} {ts : List Token} {lexemes : List Lexeme}
    (hr : r.Covers ts) (h : read r lexemes = .ok r') :
    r'.Covers (ts ++ lexemes.map Lexeme.token) := by
  induction lexemes generalizing r ts with
  | nil =>
    cases h
    simpa using hr
  | cons lexeme rest ih =>
    unfold read at h
    split at h
    · cases h
    · next r₁ hstep =>
      have hrest := ih (Reading.accept_covers hr hstep) h
      simpa using hrest

/-- Tokens that are read as a query are derived as one, up to the end. -/
theorem derives_of_ofTokens {lexemes : List Lexeme} {q : Query} (h : ofTokens lexemes = .ok q) :
    ∃ ts, lexemes.map Lexeme.token = ts ++ [.eof] ∧ q.Derives ts := by
  unfold ofTokens at h
  split at h
  · cases h
  · next hread =>
    cases h
    exact covers_of_read (show Reading.start.Covers [] from rfl) hread
  · cases h

end Query
end RowQuery
