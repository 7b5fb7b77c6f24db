import RowQuery.Proofs.Query.Recognition
import RowQuery.Proofs.Token.Spans

/-!
# What stands behind a literal

A number or a string refuses a word behind it, but that leaves two neighbours to the rest of the
reading: a digit behind a string, and a numeral that is no ASCII digit behind either. The first would
begin another literal, and the grammar has no place for two literals next to each other (`Spaced`);
the second begins no token at all. So in a text that is read, a literal has no letter, no numeral and
no underscore behind it (`literal_not_abutted`).
-/

set_option autoImplicit false

namespace RowQuery

namespace Token

/-- A number or a string. -/
def isLiteral : Token → Bool
  | .integer _ | .float _ | .string _ => true
  | _ => false

/-! ## The character behind a literal -/

theorem ofWord_isLiteral (word : List Char) : (ofWord word).isLiteral = false := by
  unfold ofWord
  split <;> rfl

/-- No word begins behind a literal. -/
theorem wordHere?_of_read {c : Char} {cs after : List Char} {t : Token}
    (h : read c cs = .ok (t, after)) (ht : t.isLiteral) : wordHere? after = none := by
  cases taken_of_read h with
  | string _ h => exact h
  | integer _ h => exact h
  | float _ _ h => exact h
  | word => exact absurd ht (Bool.eq_false_iff.mp (ofWord_isLiteral _))
  | mark _ h =>
    cases t with
    | integer | float | string => cases h
    | _ => cases ht

/-- What begins with a part of a word that begins no word is a literal, if it is a token at all. -/
theorem isLiteral_of_read {c : Char} {cs after : List Char} {t : Token}
    (hpart : isWordPart c) (hstart : isWordStart c = false) (h : read c cs = .ok (t, after)) :
    t.isLiteral := by
  cases taken_of_read h with
  | word hc => exact absurd hc (Bool.eq_false_iff.mp hstart)
  | mark hc => exact absurd hpart (Bool.eq_false_iff.mp hc)
  | _ => rfl

end Token

/-! ## Literals in the grammar -/

/-- Of each two tokens next to each other one is no literal. -/
def Spaced (ts : List Token) : Prop :=
  ts.IsChain fun t u => t.isLiteral = false ∨ u.isLiteral = false

/-- They can stand behind any token: the first of them is no literal either. -/
structure SpacedBehind (ts : List Token) : Prop where
  spaced : Spaced ts
  head : ∀ t ∈ ts.head?, t.isLiteral = false

variable {ts us : List Token} {t : Token}

namespace Spaced

theorem nil : Spaced [] := List.IsChain.nil

theorem single (t : Token) : Spaced [t] := List.IsChain.singleton t

theorem append (ht : Spaced ts) (hu : SpacedBehind us) : Spaced (ts ++ us) :=
  List.isChain_append.mpr ⟨ht, hu.spaced, fun _ _ u hmem => .inr (hu.head u hmem)⟩

/-- A mark in front of a spaced list. -/
theorem behind (hu : Spaced us) (h : t.isLiteral = false) : SpacedBehind (t :: us) where
  spaced := List.isChain_cons.mpr ⟨fun _ _ => .inl h, hu⟩
  head _ hmem := Option.some.inj hmem ▸ h

theorem cons (h : t.isLiteral = false) (hu : Spaced us) : Spaced (t :: us) := (hu.behind h).spaced

/-- Two spaced lists with a mark between them. -/
theorem join (ht : Spaced ts) (h : t.isLiteral = false) (hu : Spaced us) : Spaced (ts ++ t :: us) :=
  ht.append (hu.behind h)

end Spaced

namespace SpacedBehind

theorem nil : SpacedBehind [] := ⟨.nil, nofun⟩

theorem append (ht : SpacedBehind ts) (hu : SpacedBehind us) : SpacedBehind (ts ++ us) where
  spaced := ht.spaced.append hu
  head := by
    cases ts with
    | nil => exact hu.head
    | cons t ts => exact ht.head

end SpacedBehind

namespace Expr

theorem fieldName_isLiteral {t : Token} {name : String} (h : t.fieldName? = some name) :
    t.isLiteral = false := by
  cases t <;> first | rfl | cases h

theorem dotOf_isLiteral {t : Token} {optional : Bool} (h : dotOf? t = some optional) :
    t.isLiteral = false := by
  cases t <;> first | rfl | cases h

theorem Listed.spaced {arguments : List (List Token × Expr)} {us : List Token}
    (h : Listed arguments us) (each : ∀ a ∈ arguments, Spaced a.1) : Spaced us := by
  induction h with
  | none => exact .nil
  | last ts e => exact each (ts, e) List.mem_cons_self
  | more ts e _ ih =>
    exact (each (ts, e) List.mem_cons_self).join rfl
      (ih fun a ha => each a (List.mem_cons_of_mem _ ha))

theorem Derives.spaced {rung : Rung} {ts : List Token} {e : Expr} (h : Derives rung ts e) :
    Spaced ts := by
  induction h with
  | name n => exact .single _
  | literal _ => exact .single _
  | negative _ => exact (Spaced.single _).cons rfl
  | group _ ih => exact (ih.join rfl .nil).cons rfl
  | property _ hd hn ih => exact ih.join (dotOf_isLiteral hd) (.single _)
  | call _ hn _ hl ih ihArguments =>
    have harguments := hl.spaced fun a ha => ihArguments a ha
    exact ih.join rfl (((harguments.join rfl .nil).cons rfl).cons (fieldName_isLiteral hn))
  | ofAtom _ ih => exact ih
  | ofChain _ ih => exact ih
  | ofSum _ ih => exact ih
  | ofComparison _ ih => exact ih
  | ofNegation _ ih => exact ih
  | ofConjunction _ ih => exact ih
  | not _ ih => exact ih.cons rfl
  | add _ _ ihl ihr => exact ihl.join rfl ihr
  | compare op _ _ ihl ihr => exact ihl.join rfl ihr
  | and _ _ ihl ihr => exact ihl.join rfl ihr
  | or _ _ ihl ihr => exact ihl.join rfl ihr

theorem Spells.spaced {ts : List Token} {e : Expr} (h : e.Spells ts) : Spaced ts :=
  (spells_iff_derives.mp h).spaced

end Expr

section Parts

variable {α : Type} {Part : List Token → α → Prop} {parts : List α}

theorem Separated.spaced (h : Separated Part ts parts) (hpart : ∀ us a, Part us a → Spaced us) :
    Spaced ts := by
  induction h with
  | one h => exact hpart _ _ h
  | snoc _ last ih => exact ih.join rfl (hpart _ _ last)

theorem Repeated.spacedBehind (h : Repeated Part ts parts)
    (hpart : ∀ us a, Part us a → SpacedBehind us) : SpacedBehind ts := by
  induction h with
  | nil => exact .nil
  | snoc _ last ih => exact ih.append (hpart _ _ last)

end Parts

theorem Join.Derives.spaced {dispatch : Dispatch} {j : Join} (h : j.Derives dispatch ts) :
    Spaced ts := by
  cases h with
  | free expr => exact expr.spaced.join rfl (.single _)
  | guarded expr on => exact expr.spaced.join rfl ((on.spaced.cons rfl).cons rfl)

theorem Dispatch.Derives.spacedBehind {dispatch : Dispatch} (h : dispatch.Derives ts) :
    SpacedBehind ts := by
  cases h with
  | sync => exact .nil
  | async => exact Spaced.nil.behind rfl
  | @limited n _ =>
    have hlimit : Spaced [.integer n, .rightParen] := (Spaced.single _).join rfl .nil
    exact (hlimit.cons rfl).behind rfl

theorem JoinGroup.Derives.spacedBehind {g : JoinGroup} (h : g.Derives ts) : SpacedBehind ts := by
  cases h with
  | group joins mode =>
    have hjoins := joins.spaced fun _ _ h => h.spaced
    exact (hjoins.append mode.spacedBehind).behind rfl

theorem Restriction.Derives.spacedBehind {r : Option Restriction} (h : Restriction.Derives ts r) :
    SpacedBehind ts := by
  cases h with
  | none => exact .nil
  | some expr => exact expr.spaced.behind rfl

theorem Field.Derives.spaced {f : String × Expr} (h : Field.Derives ts f) : Spaced ts := by
  cases h with
  | name expr => exact (expr.spaced.cons rfl).cons rfl
  | keyword expr => exact (expr.spaced.cons rfl).cons rfl

theorem Query.Derives.spaced {q : Query} (h : q.Derives ts) : Spaced ts := by
  cases h with
  | @query _ _ fields source _ _ _ groups restriction projection =>
    have hsource : Spaced
        [.keyword .from', .identifier source.name, .keyword .as', .identifier source.aliasName] :=
      (((Spaced.single _).cons rfl).cons rfl).cons rfl
    have hgroups := groups.spacedBehind fun _ _ h => h.spacedBehind
    have hfields := projection.spaced fun _ _ h => h.spaced
    have hselect : Spaced (.keyword .new :: .leftBrace :: (fields ++ [.rightBrace])) :=
      ((hfields.join rfl .nil).cons rfl).cons rfl
    exact ((hsource.append hgroups).append restriction.spacedBehind).join rfl hselect

/-! ## Literals in a text -/

/-- No letter, numeral or underscore stands behind a literal, where no two literals are next to each
other. -/
theorem Tiles.isWordPart_after_literal {position : Nat} {cs : List Char} {spans : List Span}
    (h : Tiles position cs spans) (hspaced : Spaced (spans.map Span.token)) {s : Span}
    (hs : s ∈ spans) (hliteral : s.token.isLiteral) {i : Nat} (hstop : s.stop = position + i)
    {c : Char} (hc : cs[i]? = some c) : isWordPart c = false := by
  induction h generalizing i with
  | nil => cases hs
  | blank _ rest ih =>
    have hlt := rest.lt_stop s hs
    obtain ⟨i, rfl⟩ := Nat.exists_eq_succ_of_ne_zero (n := i) (by omega)
    exact ih hspaced hs (by omega) hc
  | @token position d taken after t spans hd hread rest ih =>
    rcases List.mem_cons.mp hs with rfl | hs
    · obtain rfl : i = taken.length + 1 := (Nat.add_left_cancel hstop).symm
      rw [List.getElem?_cons_succ, List.getElem?_append_right (Nat.le_refl _), Nat.sub_self] at hc
      have hstart : isWordStart c = false := by
        have hword := Token.wordHere?_of_read hread hliteral
        cases after with
        | nil => cases hc
        | cons e after =>
          obtain rfl : e = c := Option.some.inj hc
          simpa [Token.wordHere?] using hword
      refine Bool.eq_false_iff.mpr fun hpart => ?_
      cases rest with
      | nil => cases hc
      | blank hb _ =>
        obtain rfl := Option.some.inj hc
        exact absurd hpart (Bool.eq_false_iff.mp (isWordPart_of_isBlank hb))
      | token _ hread' _ =>
        obtain rfl := Option.some.inj hc
        -- what begins with a numeral is a literal again
        have hnext := Token.isLiteral_of_read hpart hstart hread'
        rcases (List.isChain_cons_cons.mp hspaced).1 with hfirst | hsecond
        · exact absurd hliteral (Bool.eq_false_iff.mp hfirst)
        · exact absurd hnext (Bool.eq_false_iff.mp hsecond)
    · have hlt := rest.lt_stop s hs
      obtain ⟨j, rfl⟩ := Nat.exists_eq_add_of_le (m := taken.length + 1) (n := i) (by omega)
      rw [Nat.add_right_comm, List.getElem?_cons_succ,
        List.getElem?_append_right (Nat.le_add_right _ _), Nat.add_sub_cancel_left] at hc
      exact ih hspaced.tail hs (by omega) hc

/-- The tokens of an accepted text hold no two literals next to each other. -/
theorem spaced_of_accepted {text : String} {spans : List Span} (htiles : Tiles 0 text.toList spans)
    (h : (∃ q, Query.parse text = .ok q) ∨ ∃ e, Expr.parse text = .ok e) :
    Spaced (spans.map Span.token) := by
  rcases h with ⟨q, hq⟩ | ⟨e, he⟩
  · obtain ⟨ts, hlexes, hderives⟩ := Query.parse_eq_ok_iff.mp hq
    exact htiles.lexes.unique hlexes ▸ hderives.spaced
  · obtain ⟨ts, hlexes, hderives⟩ := Expr.parse_eq_ok_iff.mp he
    exact htiles.lexes.unique hlexes ▸ hderives.spaced

/-- Behind a number or a string of an accepted text, be it a query or an expression, there is no
letter, no numeral of any script and no underscore. -/
theorem literal_not_abutted {text : String}
    (h : (∃ q, Query.parse text = .ok q) ∨ ∃ e, Expr.parse text = .ok e) :
    ∃ spans, tokenize text = .ok (spans.map Span.lexeme ++ [⟨.eof, text.length⟩]) ∧
      Partition text.toList spans ∧
      ∀ s ∈ spans, s.token.isLiteral → ∀ c, text.toList[s.stop]? = some c →
        isLetter c = false ∧ isNumeral c = false ∧ c ≠ '_' := by
  obtain ⟨lexemes, hlexemes⟩ : ∃ lexemes, tokenize text = .ok lexemes := by
    cases ht : tokenize text with
    | ok lexemes => exact ⟨lexemes, rfl⟩
    | error e =>
      rcases h with ⟨q, hq⟩ | ⟨e, he⟩
      · rw [Query.parse, ht] at hq; cases hq
      · rw [Expr.parse, ht] at he; cases he
  obtain ⟨spans, htiles, rfl⟩ := exists_tiles_of_tokenize hlexemes
  refine ⟨spans, hlexemes, htiles.partition, fun s hs hliteral c hc => ?_⟩
  have hpart := htiles.isWordPart_after_literal (spaced_of_accepted htiles h) hs hliteral
    (Nat.zero_add _).symm hc
  simpa [isWordPart, and_assoc] using hpart

/-- A string with an operator behind it and a number with a brace behind it. -/
theorem literal_not_abutted_field :
    (∃ q, Query.parse "from a as x select new \x7by='b'+-2\x7d" = .ok q) ∧
      ∃ spans, tokenize "from a as x select new \x7by='b'+-2\x7d" =
          .ok (spans.map Span.lexeme ++ [⟨.eof, 33⟩]) ∧
        Partition "from a as x select new \x7by='b'+-2\x7d".toList spans ∧
        ∀ s ∈ spans, s.token.isLiteral →
          ∀ c, "from a as x select new \x7by='b'+-2\x7d".toList[s.stop]? = some c →
            isLetter c = false ∧ isNumeral c = false ∧ c ≠ '_' := by
  have htokens : tokenize "from a as x select new \x7by='b'+-2\x7d" = .ok [⟨.keyword .from', 0⟩,
      ⟨.identifier "a", 5⟩, ⟨.keyword .as', 7⟩, ⟨.identifier "x", 10⟩, ⟨.keyword .select, 12⟩,
      ⟨.keyword .new, 19⟩, ⟨.leftBrace, 23⟩, ⟨.identifier "y", 24⟩, ⟨.assign, 25⟩,
      ⟨.string "b", 26⟩, ⟨.plus, 29⟩, ⟨.integer (-2), 30⟩, ⟨.rightBrace, 32⟩, ⟨.eof, 33⟩] := by
    decide +kernel
  have hparse : Query.parse "from a as x select new \x7by='b'+-2\x7d" =
      .ok ⟨⟨"a", "x"⟩, [], none,
        [("y", .add (.literal (.string "b")) (.literal (.int (-2))))]⟩ := by
    unfold Query.parse
    rw [htokens]
    rfl
  exact ⟨⟨_, hparse⟩, literal_not_abutted (.inl ⟨_, hparse⟩)⟩

end RowQuery
