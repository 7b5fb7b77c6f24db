import RowQuery.Proofs.Engine.Contracts
import RowQuery.Proofs.Evaluation.Lowering
import RowQuery.Proofs.Expr.LiteralText
import RowQuery.Proofs.Query.Recognition

/-!
# What the parser and the builder let through

The types of queries admit more than any text can say: empty groups, empty paths and paths of paths,
names that are no words, literals that are objects. Nothing of it comes out of the parser. The tokens
of a text are genuine, every rule of the grammar makes something well made of well made parts, and a
condition is laid open until nothing logical is left in its leaves.

A builder is given names and expressions as they are, so of a built query much less is true: its
groups have joins, and its limits let some task run.
-/

set_option autoImplicit false

namespace RowQuery

/-! ## The tokens of a text -/

/-- What is true of every token that is read off a text: a name is a word and no keyword, a double is
a number. -/
def Token.IsGenuine : Token → Prop
  | .identifier name => IsName name
  | .float x => x ≠ .nan
  | _ => True

namespace Token

variable {t : Token} {cs after : List Char}

theorem isGenuine_ofWord {word : List Char} (h : IsWord word) : (ofWord word).IsGenuine := by
  unfold ofWord
  cases hk : Keyword.ofWord? word with
  | some k => trivial
  | none => exact ⟨by rwa [String.toList_ofList], by rwa [String.toList_ofList]⟩

theorem isGenuine_of_read {c : Char} (h : read c cs = .ok (t, after)) : t.IsGenuine := by
  cases taken_of_read h with
  | string | integer => trivial
  | float negative d => exact Binary64.ofDecimal_ne_nan negative d
  | word hc => exact isGenuine_ofWord ⟨hc, fun _ hd => List.mem_takeWhile_imp hd⟩
  | mark _ h =>
    cases t with
    | identifier | float => cases h
    | _ => trivial

end Token

theorem Lexes.isGenuine {cs : List Char} {ts : List Token} (h : Lexes cs ts) :
    ∀ t ∈ ts, t.IsGenuine := by
  induction h with
  | nil => simp
  | blank _ _ ih => exact ih
  | token _ hread _ ih => exact List.forall_mem_cons.mpr ⟨Token.isGenuine_of_read hread, ih⟩

/-! ## Expressions -/

/-- The values of literals: no collection, no capability, and no double that is not a number. -/
def Value.IsLiteral (v : Value) : Prop := v.IsScalar ∧ v ≠ .float .nan

namespace Token.IsGenuine

variable {t : Token} {v : Value}

theorem fieldName {name : String} (h : t.IsGenuine) (hn : t.fieldName? = some name) :
    IsFieldName name := by
  cases t with
  | identifier n => cases hn; exact .inl h
  | keyword k => cases hn; exact .inr ⟨k, rfl⟩
  | _ => cases hn

theorem literal (h : t.IsGenuine) (hv : Expr.literalOf? t = some v) : v.IsLiteral := by
  refine ⟨Expr.isScalar_of_literalOf? hv, ?_⟩
  rintro rfl
  cases t with
  | float x => cases hv; exact h rfl
  | keyword k => cases k <;> cases hv
  | _ => cases hv

theorem negated (h : t.IsGenuine) (hv : Expr.negatedOf? t = some v) : v.IsLiteral := by
  refine ⟨Expr.isScalar_of_negatedOf? hv, ?_⟩
  rintro rfl
  cases t with
  | integer n =>
    obtain ⟨-, hv⟩ := Option.ite_none_left_eq_some.mp hv
    cases hv
  | float x =>
    cases x with
    | nan => exact h rfl
    | infinite negative => cases hv
    | finite x => cases hv
  | _ => cases hv

end Token.IsGenuine

namespace Expr

/-- What the outermost node of an expression keeps to, of whatever its operands are. A path has
segments and is not continued by another one. -/
def WellMade : Expr → Prop
  | .literal v => v.IsLiteral
  | .variable name => IsName name
  | .path base segments =>
    (∀ inner before, base ≠ .path inner before) ∧ segments ≠ [] ∧
      ∀ s ∈ segments, IsFieldName s.name
  | .call _ operation _ => IsFieldName operation
  | _ => True

theorem mem_partsAll {part : Expr} {es : List Expr} :
    part ∈ partsAll es ↔ ∃ e ∈ es, part ∈ e.parts := by
  induction es with
  | nil => simp [partsAll]
  | cons e rest ih => simp [partsAll, ih]

/-- One more segment: a path stays one path, and anything else becomes the base of one. -/
theorem wellMade_segment {e : Expr} (he : ∀ part ∈ e.parts, part.WellMade) {s : Segment}
    (hs : IsFieldName s.name) : ∀ part ∈ (e.segment s).parts, part.WellMade := by
  unfold segment
  split
  · next base segments =>
    obtain ⟨⟨hflat, -, hnames⟩, hbase⟩ := List.forall_mem_cons.mp he
    refine List.forall_mem_cons.mpr ⟨⟨hflat, by simp, ?_⟩, hbase⟩
    exact List.forall_mem_append.mpr ⟨hnames, List.forall_mem_singleton.mpr hs⟩
  · next hflat =>
    exact List.forall_mem_cons.mpr
      ⟨⟨hflat, by simp, List.forall_mem_singleton.mpr hs⟩, he⟩

/-- A node with two operands. -/
theorem wellMade_operands {node l r : Expr} (h : node.WellMade)
    (hl : ∀ part ∈ l.parts, part.WellMade) (hr : ∀ part ∈ r.parts, part.WellMade) :
    ∀ part ∈ node :: (l.parts ++ r.parts), part.WellMade :=
  List.forall_mem_cons.mpr ⟨h, List.forall_mem_append.mpr ⟨hl, hr⟩⟩

theorem Listed.subset {arguments : List (List Token × Expr)} {us : List Token}
    (h : Listed arguments us) : ∀ a ∈ arguments, ∀ t ∈ a.1, t ∈ us := by
  induction h with
  | none => simp
  | last ts e => simp
  | more ts e _ ih =>
    refine List.forall_mem_cons.mpr ⟨fun t ht => List.mem_append_left _ ht, fun a ha t ht => ?_⟩
    exact List.mem_append_right _ (List.mem_cons_of_mem _ (ih a ha t ht))

/-- What all tokens are, those on either side of a token are. -/
theorem forall_mem_sides {p : Token → Prop} {ts us : List Token} {t : Token}
    (h : ∀ x ∈ ts ++ t :: us, p x) : (∀ x ∈ ts, p x) ∧ ∀ x ∈ us, p x :=
  ⟨(List.forall_mem_append.mp h).1, (List.forall_mem_cons.mp (List.forall_mem_append.mp h).2).2⟩

/-- Every rule of the grammar makes something well made of genuine tokens. -/
theorem Derives.wellMade {rung : Rung} {ts : List Token} {e : Expr} (h : Derives rung ts e)
    (hts : ∀ t ∈ ts, t.IsGenuine) : ∀ part ∈ e.parts, part.WellMade := by
  induction h with
  | name n =>
    have hname : IsName n := hts (.identifier n) (by simp)
    exact List.forall_mem_singleton.mpr hname
  | literal hv =>
    exact List.forall_mem_singleton.mpr ((List.forall_mem_singleton.mp hts).literal hv)
  | negative hv =>
    exact List.forall_mem_singleton.mpr (Token.IsGenuine.negated (hts _ (by simp)) hv)
  | group _ ih => exact ih (forall_mem_sides (List.forall_mem_cons.mp hts).2).1
  | property _ _ hn ih =>
    obtain ⟨hbase, hname⟩ := List.forall_mem_append.mp hts
    exact wellMade_segment (ih hbase) (Token.IsGenuine.fieldName (hname _ (by simp)) hn)
  | call _ hn _ hlisted ih ihArguments =>
    obtain ⟨htarget, hbehind⟩ := List.forall_mem_append.mp hts
    refine List.forall_mem_cons.mpr ⟨Token.IsGenuine.fieldName (hbehind _ (by simp)) hn, ?_⟩
    refine List.forall_mem_append.mpr ⟨ih htarget, fun part hpart => ?_⟩
    obtain ⟨e, he, hpart⟩ := mem_partsAll.mp hpart
    obtain ⟨a, ha, rfl⟩ := List.mem_map.mp he
    refine ihArguments a ha (fun t ht => hbehind t ?_) part hpart
    simp [hlisted.subset a ha t ht]
  | add _ _ ihl ihr | compare _ _ _ ihl ihr | and _ _ ihl ihr | or _ _ ihl ihr =>
    obtain ⟨hl, hr⟩ := forall_mem_sides hts
    exact wellMade_operands trivial (ihl hl) (ihr hr)
  | not _ ih => exact List.forall_mem_cons.mpr ⟨trivial, ih (List.forall_mem_cons.mp hts).2⟩
  | ofAtom _ ih => exact ih hts
  | ofChain _ ih => exact ih hts
  | ofSum _ ih => exact ih hts
  | ofComparison _ ih => exact ih hts
  | ofNegation _ ih => exact ih hts
  | ofConjunction _ ih => exact ih hts

theorem Spells.wellMade {ts : List Token} {e : Expr} (h : e.Spells ts)
    (hts : ∀ t ∈ ts, t.IsGenuine) : ∀ part ∈ e.parts, part.WellMade :=
  (spells_iff_derives.mp h).wellMade hts

/-- Comparisons and what is put together of conditions. -/
def isLogical : Expr → Bool
  | .compare _ _ _ => true
  | .and _ _ => true
  | .or _ _ => true
  | .not _ => true
  | _ => false

end Expr

/-! ## Conditions -/

namespace Restriction

/-- The expressions that a condition leaves as they are and tests for truth. -/
def truths : Restriction → List Expr
  | .compare _ _ _ => []
  | .and l r => l.truths ++ r.truths
  | .or l r => l.truths ++ r.truths
  | .not operand => operand.truths
  | .holds e => [e]

/-- A condition is laid open until no leaf is logical. -/
theorem isLogical_of_mem_truths (e : Expr) : ∀ t ∈ (ofExpr e).truths, t.isLogical = false := by
  fun_induction ofExpr e with
  | case1 l r ihl ihr => exact List.forall_mem_append.mpr ⟨ihl, ihr⟩
  | case2 l r ihl ihr => exact List.forall_mem_append.mpr ⟨ihl, ihr⟩
  | case3 e ih => exact ih
  | case4 op l r => simp [truths]
  | case5 e hand hor hnot hcompare =>
    refine List.forall_mem_singleton.mpr ?_
    unfold Expr.isLogical
    split
    · next op l r => exact absurd rfl (hcompare op l r)
    · next l r => exact absurd rfl (hand l r)
    · next l r => exact absurd rfl (hor l r)
    · next e => exact absurd rfl (hnot e)
    · rfl

/-- Laying a condition open drops nodes and makes none. -/
theorem parts_ofExpr_subset (e : Expr) : (ofExpr e).parts ⊆ e.parts := by
  fun_induction ofExpr e with
  | case1 l r ihl ihr | case2 l r ihl ihr =>
    have hoperands : (ofExpr l).parts ++ (ofExpr r).parts ⊆ l.parts ++ r.parts :=
      List.append_subset.mpr ⟨List.subset_append_of_subset_left _ ihl,
        List.subset_append_of_subset_right _ ihr⟩
    exact List.subset_cons_of_subset _ hoperands
  | case3 e ih => exact List.subset_cons_of_subset _ ih
  | case4 op l r => exact List.subset_cons_self _ _
  | case5 e => exact List.Subset.refl _

end Restriction

/-! ## Queries -/

/-- A dispatch that can be written: no executor is handed over, and a limit lets some task run. -/
inductive Dispatch.WellFormed : Dispatch → Prop where
  | sync : WellFormed .sync
  | async {limit : Option Nat} (h : ∀ n ∈ limit, 1 ≤ n) : WellFormed (.async limit none)

/-- A group of joins that are dispatched alike. -/
structure JoinGroup.WellFormed (g : JoinGroup) : Prop where
  nonempty : g.siblings ≠ []
  dispatch : ∃ dispatch : Dispatch, dispatch.WellFormed ∧ ∀ j ∈ g.siblings, j.dispatch = dispatch
  aliases : ∀ j ∈ g.siblings, IsName j.aliasName

/-- What a query keeps to that has been parsed: in its clauses, and in every node of its
expressions. -/
structure Query.WellFormed (q : Query) : Prop where
  source : IsName q.source.name
  sourceAlias : IsName q.source.aliasName
  groups : ∀ g ∈ q.groups, g.WellFormed
  truths : ∀ r ∈ q.restriction, ∀ e ∈ r.truths, e.isLogical = false
  fields : q.projection ≠ [] ∧ ∀ f ∈ q.projection, IsFieldName f.1
  parts : ∀ part ∈ q.parts, part.WellMade

/-! ### Clauses -/

section Parts

variable {α : Type} {Part : List Token → α → Prop} {P : α → Prop} {ts : List Token} {parts : List α}

theorem Separated.ne_nil (h : Separated Part ts parts) : parts ≠ [] := by
  cases h <;> simp

/-- What genuine tokens make of each part they make of all of them. -/
theorem Separated.forall_mem (h : Separated Part ts parts) (hts : ∀ t ∈ ts, t.IsGenuine)
    (hpart : ∀ us a, Part us a → (∀ t ∈ us, t.IsGenuine) → P a) : ∀ a ∈ parts, P a := by
  induction h with
  | one h => exact List.forall_mem_singleton.mpr (hpart _ _ h hts)
  | snoc _ last ih =>
    obtain ⟨hfront, hlast⟩ := List.forall_mem_append.mp hts
    have hlast := hpart _ _ last (List.forall_mem_cons.mp hlast).2
    exact List.forall_mem_append.mpr ⟨ih hfront, List.forall_mem_singleton.mpr hlast⟩

theorem Repeated.forall_mem (h : Repeated Part ts parts) (hts : ∀ t ∈ ts, t.IsGenuine)
    (hpart : ∀ us a, Part us a → (∀ t ∈ us, t.IsGenuine) → P a) : ∀ a ∈ parts, P a := by
  induction h with
  | nil => simp
  | snoc _ last ih =>
    obtain ⟨hfront, hlast⟩ := List.forall_mem_append.mp hts
    have hlast := hpart _ _ last hlast
    exact List.forall_mem_append.mpr ⟨ih hfront, List.forall_mem_singleton.mpr hlast⟩

end Parts

theorem Dispatch.Derives.wellFormed {ts : List Token} {dispatch : Dispatch}
    (h : dispatch.Derives ts) : dispatch.WellFormed := by
  cases h with
  | sync => exact .sync
  | async => exact .async nofun
  | @limited n hn =>
    refine .async fun m hm => ?_
    cases hm
    have hpos : 0 < n.toInt := Int64.lt_iff_toInt_lt.mp hn
    omega

/-- What a join keeps to apart from its dispatch. -/
structure Join.WellFormed (j : Join) : Prop where
  aliasName : IsName j.aliasName
  expr : ∀ part ∈ j.expr.parts, part.WellMade
  guard : ∀ guard ∈ j.guard, ∀ part ∈ guard.parts, part.WellMade

theorem Join.Derives.wellFormed {dispatch : Dispatch} {ts : List Token} {j : Join}
    (h : j.Derives dispatch ts) (hts : ∀ t ∈ ts, t.IsGenuine) :
    j.dispatch = dispatch ∧ j.WellFormed := by
  cases h with
  | @free ts e name expr =>
    obtain ⟨hexpr, hbehind⟩ := List.forall_mem_append.mp hts
    have hname : IsName name := hbehind (.identifier name) (by simp)
    exact ⟨rfl, hname, expr.wellMade hexpr, nofun⟩
  | @guarded ts us e guard name expr on =>
    obtain ⟨hexpr, hbehind⟩ := List.forall_mem_append.mp hts
    have hname : IsName name := hbehind (.identifier name) (by simp)
    have hguard : ∀ t ∈ us, t.IsGenuine := fun t ht => hbehind t (by simp [ht])
    refine ⟨rfl, hname, expr.wellMade hexpr, ?_⟩
    rintro _ ⟨⟩
    exact on.wellMade hguard

theorem JoinGroup.Derives.wellFormed {ts : List Token} {g : JoinGroup} (h : g.Derives ts)
    (hts : ∀ t ∈ ts, t.IsGenuine) : g.WellFormed ∧ ∀ part ∈ g.parts, part.WellMade := by
  cases h with
  | @group ts us siblings dispatch joins mode =>
    have hjoins : ∀ t ∈ ts, t.IsGenuine := fun t ht => hts t (by simp [ht])
    have hall := joins.forall_mem hjoins fun _ _ hj htokens => hj.wellFormed htokens
    refine ⟨⟨joins.ne_nil, ⟨dispatch, mode.wellFormed, fun j hj => (hall j hj).1⟩,
      fun j hj => (hall j hj).2.aliasName⟩, fun part hpart => ?_⟩
    rcases List.mem_append.mp hpart with hguards | hexprs
    · obtain ⟨guard, hguard, hpart⟩ := List.mem_flatMap.mp hguards
      obtain ⟨j, hj, hguard⟩ := List.mem_filterMap.mp hguard
      exact (hall j hj).2.guard guard hguard part hpart
    · obtain ⟨j, hj, hpart⟩ := List.mem_flatMap.mp hexprs
      exact (hall j hj).2.expr part hpart

theorem Restriction.Derives.wellFormed {ts : List Token} {restriction : Option Restriction}
    (h : Restriction.Derives ts restriction) (hts : ∀ t ∈ ts, t.IsGenuine) :
    ∀ r ∈ restriction,
      (∀ e ∈ r.truths, e.isLogical = false) ∧ ∀ part ∈ r.parts, part.WellMade := by
  cases h with
  | none => nofun
  | some expr =>
    rintro _ ⟨⟩
    have hparts := expr.wellMade (List.forall_mem_cons.mp hts).2
    exact ⟨isLogical_of_mem_truths _, fun part hpart => hparts part (parts_ofExpr_subset _ hpart)⟩

theorem Field.Derives.wellFormed {ts : List Token} {f : String × Expr} (h : Field.Derives ts f)
    (hts : ∀ t ∈ ts, t.IsGenuine) : IsFieldName f.1 ∧ ∀ part ∈ f.2.parts, part.WellMade := by
  cases h with
  | @name ts e name expr =>
    have hname : IsName name := hts (.identifier name) (by simp)
    exact ⟨.inl hname, expr.wellMade fun t ht => hts t (by simp [ht])⟩
  | @keyword ts e k expr =>
    exact ⟨.inr ⟨k, rfl⟩, expr.wellMade fun t ht => hts t (by simp [ht])⟩

theorem Query.Derives.wellFormed {ts : List Token} {q : Query} (h : q.Derives ts)
    (hts : ∀ t ∈ ts, t.IsGenuine) : q.WellFormed := by
  cases h with
  | @query joins wheres fields source groups restriction projection groups' restriction'
      projection' =>
    have hsource : IsName source.name := hts (.identifier source.name) (by simp)
    have halias : IsName source.aliasName := hts (.identifier source.aliasName) (by simp)
    have hjoins : ∀ t ∈ joins, t.IsGenuine := fun t ht => hts t (by simp [ht])
    have hwheres : ∀ t ∈ wheres, t.IsGenuine := fun t ht => hts t (by simp [ht])
    have hfields : ∀ t ∈ fields, t.IsGenuine := fun t ht => hts t (by simp [ht])
    have hgroups := groups'.forall_mem hjoins fun _ _ hg htokens => hg.wellFormed htokens
    have hrestriction := restriction'.wellFormed hwheres
    have hprojection := projection'.forall_mem hfields fun _ _ hf htokens => hf.wellFormed htokens
    refine ⟨hsource, halias, fun g hg => (hgroups g hg).1, fun r hr => (hrestriction r hr).1,
      ⟨projection'.ne_nil, fun f hf => (hprojection f hf).1⟩, fun part hpart => ?_⟩
    rcases List.mem_append.mp hpart with hgroup | hpart
    · obtain ⟨g, hg, hpart⟩ := List.mem_flatMap.mp hgroup
      exact (hgroups g hg).2 part hpart
    · rcases List.mem_append.mp hpart with hwhere | hfield
      · obtain ⟨r, hr, hpart⟩ := List.mem_flatMap.mp hwhere
        exact (hrestriction r (Option.mem_toList.mp hr)).2 part hpart
      · obtain ⟨f, hf, hpart⟩ := List.mem_flatMap.mp hfield
        exact (hprojection f hf).2 part hpart

theorem Query.wellFormed_of_parse {text : String} {q : Query} (h : Query.parse text = .ok q) :
    q.WellFormed := by
  obtain ⟨ts, hlexes, hderives⟩ := Query.parse_eq_ok_iff.mp h
  exact hderives.wellFormed hlexes.isGenuine

/-! ### Built queries -/

section Except

variable {ε α β : Type} {b : β}

theorem exists_of_bind_eq_ok {x : Except ε α} {f : α → Except ε β} (h : x >>= f = .ok b) :
    ∃ a, x = .ok a ∧ f a = .ok b := by
  cases x with
  | error e => cases h
  | ok a => exact ⟨a, rfl, h⟩

theorem exists_of_mem_mapM {f : α → Except ε β} {as : List α} {bs : List β}
    (h : as.mapM f = .ok bs) (hb : b ∈ bs) : ∃ a ∈ as, f a = .ok b := by
  induction as generalizing bs with
  | nil =>
    cases h
    cases hb
  | cons a as ih =>
    rw [List.mapM_cons] at h
    obtain ⟨b', hb', h⟩ := exists_of_bind_eq_ok h
    obtain ⟨bs', hbs', h⟩ := exists_of_bind_eq_ok h
    cases h
    rcases List.mem_cons.mp hb with rfl | hb
    · exact ⟨a, List.mem_cons_self, hb'⟩
    · obtain ⟨a', ha', hf⟩ := ih hbs' hb
      exact ⟨a', List.mem_cons_of_mem _ ha', hf⟩

end Except

theorem JoinBuilder.limit?_of_build {b : JoinBuilder} {j : Join} (h : b.build = .ok j) :
    j.dispatch.limit? ≠ some 0 := by
  unfold JoinBuilder.build at h
  by_cases hzero : (b.limit == some 0) = true
  · rw [if_pos hzero] at h
    cases h
  · rw [if_neg hzero] at h
    obtain ⟨expr, -, h⟩ := exists_of_bind_eq_ok h
    obtain ⟨guard, -, h⟩ := exists_of_bind_eq_ok h
    cases h
    dsimp only
    split
    · exact fun hlimit => hzero (beq_iff_eq.mpr hlimit)
    · nofun

theorem QueryBuilder.of_buildGroup {joins : List JoinBuilder} {g : JoinGroup}
    (h : buildGroup joins = .ok g) :
    g.siblings ≠ [] ∧ ∀ j ∈ g.siblings, j.dispatch.limit? ≠ some 0 := by
  cases joins with
  | nil => cases h
  | cons b rest =>
    obtain ⟨siblings, hsiblings, h⟩ := exists_of_bind_eq_ok h
    cases h
    refine ⟨?_, fun j hj => ?_⟩
    · rw [List.mapM_cons] at hsiblings
      obtain ⟨first, -, hsiblings⟩ := exists_of_bind_eq_ok hsiblings
      obtain ⟨others, -, hsiblings⟩ := exists_of_bind_eq_ok hsiblings
      cases hsiblings
      exact List.cons_ne_nil _ _
    · obtain ⟨b, -, hb⟩ := exists_of_mem_mapM hsiblings hj
      exact JoinBuilder.limit?_of_build hb

theorem QueryBuilder.of_build {b : QueryBuilder} {q : Query} (h : b.build = .ok q) :
    ∀ g ∈ q.groups, g.siblings ≠ [] ∧ ∀ j ∈ g.siblings, j.dispatch.limit? ≠ some 0 := by
  unfold build at h
  split at h
  · split at h
    · obtain ⟨groups, hgroups, h⟩ := exists_of_bind_eq_ok h
      obtain ⟨restriction, -, h⟩ := exists_of_bind_eq_ok h
      obtain ⟨projection, -, h⟩ := exists_of_bind_eq_ok h
      cases h
      intro g hg
      obtain ⟨joins, -, hjoins⟩ := exists_of_mem_mapM hgroups hg
      exact of_buildGroup hjoins
    · cases h
  · cases h

/-- A query that has been parsed is well formed: in its groups, its condition, its projection and
every node of its expressions. One that has been built has joins in every group and lets some task of
each of them run. -/
theorem accepted_wellFormed :
    (∀ (text : String) (q : Query), Query.parse text = .ok q → q.WellFormed) ∧
    ∀ (b : QueryBuilder) (q : Query), b.build = .ok q →
      ∀ g ∈ q.groups, g.siblings ≠ [] ∧ ∀ j ∈ g.siblings, j.dispatch.limit? ≠ some 0 :=
  ⟨fun _ _ h => Query.wellFormed_of_parse h, fun _ _ h => QueryBuilder.of_build h⟩

/-- A path that goes on behind parentheses, a limit, and a sum for a condition; and a built query that
has no names and selects nothing. -/
theorem accepted_wellFormed_mixed :
    let text :=
      "from t as t join (t.a).?b as x async(2) where t+t select new\x7bz=t\x7d"
    let b : QueryBuilder :=
      { source := some ⟨"xs", "x"⟩, projection := some [],
        groups := [[{ expr := .expr (.variable ""), aliasName := "", isAsync := true }]] }
    (∃ q : Query, Query.parse text = .ok q ∧ q.groups ≠ [] ∧ q.WellFormed) ∧
    ∃ q : Query, b.build = .ok q ∧ q.groups ≠ [] ∧
      ∀ g ∈ q.groups, g.siblings ≠ [] ∧ ∀ j ∈ g.siblings, j.dispatch.limit? ≠ some 0 := by
  intro text b
  obtain ⟨hparsed, hbuilt⟩ := accepted_wellFormed
  have htokens : tokenize text = .ok [
      ⟨.keyword .from', 0⟩, ⟨.identifier "t", 5⟩, ⟨.keyword .as', 7⟩, ⟨.identifier "t", 10⟩,
      ⟨.keyword .join, 12⟩, ⟨.leftParen, 17⟩, ⟨.identifier "t", 18⟩, ⟨.dot, 19⟩,
      ⟨.identifier "a", 20⟩, ⟨.rightParen, 21⟩, ⟨.dotQuestion, 22⟩, ⟨.identifier "b", 24⟩,
      ⟨.keyword .as', 26⟩, ⟨.identifier "x", 29⟩, ⟨.keyword .async, 31⟩, ⟨.leftParen, 36⟩,
      ⟨.integer 2, 37⟩, ⟨.rightParen, 38⟩, ⟨.keyword .where', 40⟩, ⟨.identifier "t", 46⟩,
      ⟨.plus, 47⟩, ⟨.identifier "t", 48⟩, ⟨.keyword .select, 50⟩, ⟨.keyword .new, 57⟩,
      ⟨.leftBrace, 60⟩, ⟨.identifier "z", 61⟩, ⟨.assign, 62⟩, ⟨.identifier "t", 63⟩,
      ⟨.rightBrace, 64⟩, ⟨.eof, 65⟩] := by
    decide +kernel
  have hparse : Query.parse text = .ok
      ⟨⟨"t", "t"⟩,
        [⟨[⟨"x", .path (.variable "t") [⟨"a", false⟩, ⟨"b", true⟩], none, .async (some 2) none⟩]⟩],
        some (.holds (.add (.variable "t") (.variable "t"))), [("z", .variable "t")]⟩ := by
    unfold Query.parse
    rw [htokens]
    rfl
  have hbuild : b.build = .ok
      ⟨⟨"xs", "x"⟩, [⟨[⟨"", .variable "", none, .async none none⟩]⟩], none, []⟩ := rfl
  exact ⟨⟨_, hparse, by simp, hparsed _ _ hparse⟩, _, hbuild, by simp, hbuilt _ _ hbuild⟩

end RowQuery
