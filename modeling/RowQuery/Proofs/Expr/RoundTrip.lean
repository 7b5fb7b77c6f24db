import RowQuery.Proofs.Expr.Recognition
import RowQuery.Proofs.Token.Literals

/-!
# Printed expressions parse

The text of a well-formed expression parses as the expression (`parse_text`). Nothing here follows
the reader: the text is cut into the texts of its parts, each of which has tokens that the grammar
derives, and the recognition of the grammar does the rest.

An expression that is an operator derives on the loosest rung, every other one on the rung of
chains. The parentheses that the printer puts around operators are what makes every operand a
chain, whatever stands around it.
-/

set_option autoImplicit false

namespace RowQuery

/-! ## Literals -/

/-- The values that have a literal: floats without an exponent, strings of plain characters. -/
def Value.IsPlain : Value → Prop
  | .null => True
  | .bool _ => True
  | .int _ => True
  | .float x => x.IsPlain
  | .string s => ∀ c ∈ s.toList, Quoted.IsPlain c
  | .array _ => False
  | .object _ => False
  | .capability _ => False

theorem Value.IsPlain.exists_token {v : Value} (h : v.IsPlain) :
    ∃ t, Lexes v.literalText.toList [t] ∧ Expr.literalOf? t = some v := by
  cases v with
  | null => exact ⟨_, .keyword .null, rfl⟩
  | bool b =>
    cases b with
    | false => exact ⟨_, .keyword .false, rfl⟩
    | true => exact ⟨_, .keyword .true, rfl⟩
  | int n => exact ⟨_, .integer n, rfl⟩
  | float x => exact ⟨_, .float h, rfl⟩
  | string s => exact ⟨_, .quote h, rfl⟩
  | array items => exact absurd h id
  | object fields => exact absurd h id
  | capability handle => exact absurd h id

/-! ## Marks and operators -/

theorem Token.read_dot {c : Char} (h : c ≠ '?') (cs : List Char) :
    Token.read '.' (c :: cs) = .ok (.dot, c :: cs) := by
  unfold Token.read
  rw [if_neg (by decide), if_neg (by decide), if_neg (by decide)]
  simp [h]

namespace Lexes

variable {as bs cs : List Char} {ts us : List Token} {t : Token}

theorem parenthesized (h : Lexes as ts) :
    Lexes ('(' :: (as ++ [')'])) (.leftParen :: (ts ++ [.rightParen])) :=
  (h.append (Lexes.nil.mark .rightParen) (Mark.rightParen.apart [])).mark .leftParen

/-- An operator with a blank on either side. -/
theorem betweenBlanks (hl : Lexes as ts) (hop : Lexes cs [t]) (hr : Lexes bs us) :
    Lexes (as ++ ' ' :: (cs ++ ' ' :: bs)) (ts ++ t :: us) := by
  have hblank : isBlank ' ' := by decide
  exact hl.append (.blank hblank (hop.append (.blank hblank hr) (.blank _ hblank))) (.blank _ hblank)

end Lexes

theorem Comparison.lexes_symbol (op : Comparison) : Lexes op.symbol.toList [.comparison op] := by
  cases op <;> exact .token (by decide) rfl .nil

namespace Expr

/-! ## Well-formed expressions -/

/-- The expressions that query text can show: their names are words, their paths are flat and not
empty, and their literals have a literal text. -/
inductive WellFormed : Expr → Prop where
  | literal {v : Value} (h : v.IsPlain) : WellFormed (.literal v)
  | name {n : String} (h : IsName n) : WellFormed (.variable n)
  | path {base : Expr} {segments : List Segment} (hbase : WellFormed base)
      (flat : ∀ inner before, base ≠ .path inner before) (nonempty : segments ≠ [])
      (names : ∀ s ∈ segments, IsFieldName s.name) : WellFormed (.path base segments)
  | add {l r : Expr} (left : WellFormed l) (right : WellFormed r) : WellFormed (.add l r)
  | compare {l r : Expr} (op : Comparison) (left : WellFormed l) (right : WellFormed r) :
      WellFormed (.compare op l r)
  | and {l r : Expr} (left : WellFormed l) (right : WellFormed r) : WellFormed (.and l r)
  | or {l r : Expr} (left : WellFormed l) (right : WellFormed r) : WellFormed (.or l r)
  | not {e : Expr} (operand : WellFormed e) : WellFormed (.not e)
  | call {target : Expr} {operation : String} {arguments : List Expr} (htarget : WellFormed target)
      (hname : IsFieldName operation) (each : ∀ a ∈ arguments, WellFormed a) :
      WellFormed (.call target operation arguments)

/-- The text has tokens that are the expression: an operator on the loosest rung, any other
expression on the rung of chains. -/
def Prints (e : Expr) : Prop :=
  ∃ ts, Lexes e.text.toList ts ∧ Derives (if e.isOperator then .disjunction else .chain) ts e

namespace Prints

variable {e : Expr}

theorem disjunction (h : Prints e) : ∃ ts, Lexes e.text.toList ts ∧ Derives .disjunction ts e := by
  obtain ⟨ts, hlex, hder⟩ := h
  refine ⟨ts, hlex, ?_⟩
  split at hder
  · exact hder
  · exact hder.chain_disjunction

/-- An operand is a chain, in parentheses if it must. -/
theorem operand (h : Prints e) :
    ∃ ts, Lexes (operandText e e.text).toList ts ∧ Derives .chain ts e := by
  obtain ⟨ts, hlex, hder⟩ := h
  unfold operandText
  split at hder
  next hop =>
    rw [if_pos hop, String.toList_append, String.toList_append]
    exact ⟨_, hlex.parenthesized, .ofAtom (.group hder)⟩
  next hop =>
    rw [if_neg hop]
    exact ⟨ts, hlex, hder⟩

/-- A text of two operands with an operator between them. -/
theorem between {l r : Expr} (left : Prints l) (right : Prints r) {text symbol : List Char}
    {t : Token} (hsymbol : Lexes symbol [t])
    (htext : text = (operandText l l.text).toList ++
      ' ' :: (symbol ++ ' ' :: (operandText r r.text).toList)) :
    ∃ ts us, Lexes text (ts ++ t :: us) ∧ Derives .chain ts l ∧ Derives .chain us r := by
  obtain ⟨ts, hl, hleft⟩ := left.operand
  obtain ⟨us, hr, hright⟩ := right.operand
  refine ⟨ts, us, ?_, hleft, hright⟩
  rw [htext]
  exact hl.betweenBlanks hsymbol hr

end Prints

/-! ## Segments and arguments -/

/-- A segment is a dot and a name, and a text that goes on with it stands apart. -/
theorem lexes_segment {s : Segment} (h : IsFieldName s.name) : ∃ d n,
    Lexes s.text.toList [d, n] ∧ dotOf? d = some s.optional ∧ n.fieldName? = some s.name ∧
      ∀ rest, Apart (s.text.toList ++ rest) := by
  obtain ⟨n, hlex, hn⟩ := h.exists_token
  obtain ⟨c, cs, hcs, hc, hq⟩ := h.exists_head
  rw [hcs] at hlex
  unfold Segment.text
  rw [String.toList_append, hcs]
  cases hopt : s.optional with
  | false =>
    refine ⟨.dot, n, .token (by decide) (Token.read_dot hq cs) hlex, rfl, hn, ?_⟩
    intro rest
    exact Apart.dot _ hc
  | true =>
    refine ⟨.dotQuestion, n, .token (by decide) rfl hlex, rfl, hn, ?_⟩
    intro rest
    exact Apart.dot _ (by decide)

theorem lexes_segments {segments : List Segment} (h : ∀ s ∈ segments, IsFieldName s.name) :
    ∃ us, Lexes (Segment.textAll segments).toList us ∧ Apart (Segment.textAll segments).toList ∧
      ∀ ts e, Derives .chain ts e → Derives .chain (ts ++ us) (segments.foldl segment e) := by
  induction segments with
  | nil => exact ⟨[], .nil, .nil, fun ts e he => by simpa using he⟩
  | cons s rest ih =>
    obtain ⟨us, hlex, hapart, hder⟩ := ih fun s' hs' => h s' (List.mem_cons_of_mem _ hs')
    obtain ⟨d, n, hs, hd, hn, happ⟩ := lexes_segment (h s (by simp))
    have htext : (Segment.textAll (s :: rest)).toList =
        s.text.toList ++ (Segment.textAll rest).toList := by
      simp [Segment.textAll]
    rw [htext]
    refine ⟨[d, n] ++ us, hs.append hlex hapart, happ _, fun ts e he => ?_⟩
    rw [← List.append_assoc, List.foldl_cons]
    exact hder _ _ (.property he hd hn)

theorem foldl_segment_path (base : Expr) (before segments : List Segment) :
    segments.foldl segment (.path base before) = .path base (before ++ segments) := by
  induction segments generalizing before with
  | nil => simp
  | cons s rest ih => rw [List.foldl_cons, segment, ih, List.append_assoc]; rfl

/-- Segments read one after another from a base that is no path make one path. -/
theorem foldl_segment {base : Expr} {segments : List Segment}
    (flat : ∀ inner before, base ≠ .path inner before) (nonempty : segments ≠ []) :
    segments.foldl segment base = .path base segments := by
  obtain ⟨s, rest, rfl⟩ := List.exists_cons_of_ne_nil nonempty
  have hfirst : base.segment s = .path base [s] := by
    unfold segment
    split
    · next inner before => exact absurd rfl (flat inner before)
    · rfl
  rw [List.foldl_cons, hfirst, foldl_segment_path]
  rfl

theorem lexes_arguments {arguments : List Expr} (h : ∀ a ∈ arguments, Prints a) :
    ∃ pairs us, pairs.map Prod.snd = arguments ∧ (∀ a ∈ pairs, Derives .disjunction a.1 a.2) ∧
      Listed pairs us ∧ Lexes (", ".intercalate (argumentTexts arguments)).toList us := by
  induction arguments with
  | nil => exact ⟨[], [], rfl, by simp, .none, .nil⟩
  | cons e rest ih =>
    obtain ⟨ts, hlex, hder⟩ := (h e (by simp)).disjunction
    obtain ⟨pairs, us, hpairs, heach, hlisted, hrest⟩ :=
      ih fun a ha => h a (List.mem_cons_of_mem _ ha)
    cases rest with
    | nil =>
      refine ⟨[(ts, e)], ts, rfl, ?_, .last ts e, ?_⟩
      · intro a ha
        obtain rfl := List.mem_singleton.mp ha
        exact hder
      · rw [argumentTexts, argumentTexts, String.intercalate_singleton]
        exact hlex
    | cons e' rest =>
      refine ⟨(ts, e) :: pairs, ts ++ .comma :: us, by simp [hpairs], ?_, .more ts e hlisted, ?_⟩
      · intro a ha
        rcases List.mem_cons.mp ha with rfl | ha
        · exact hder
        · exact heach a ha
      · rw [argumentTexts, argumentTexts, String.intercalate_cons_cons, String.toList_append,
          String.toList_append, List.append_assoc, ← argumentTexts]
        exact hlex.append ((Lexes.blank (by decide) hrest).mark .comma) (Mark.comma.apart _)

/-! ## The round trip -/

/-- Well-formed expressions print. -/
theorem prints_of_wellFormed {e : Expr} (h : WellFormed e) : Prints e := by
  induction h with
  | literal hv =>
    obtain ⟨t, hlex, ht⟩ := hv.exists_token
    exact ⟨[t], hlex, .ofAtom (.literal ht)⟩
  | name hn => exact ⟨_, .name hn.isWord hn.noKeyword, .ofAtom (.name _)⟩
  | path _ flat nonempty names ih =>
    obtain ⟨ts, hbase, hder⟩ := ih.operand
    obtain ⟨us, hlex, hapart, hsegments⟩ := lexes_segments names
    refine ⟨ts ++ us, ?_, ?_⟩
    · rw [text, String.toList_append]
      exact hbase.append hlex hapart
    · have h := hsegments ts _ hder
      rwa [foldl_segment flat nonempty] at h
  | @add l r _ _ ihl ihr =>
    have htext : (add l r).text.toList = (operandText l l.text).toList ++
        ' ' :: (['+'] ++ ' ' :: (operandText r r.text).toList) := by
      rw [text, String.toList_append, String.toList_append, List.append_assoc]
      rfl
    obtain ⟨ts, us, hlex, hl, hr⟩ := ihl.between ihr (.token (by decide) rfl .nil) htext
    exact ⟨_, hlex, .ofConjunction (.ofNegation (.ofComparison (.ofSum (.add (.ofChain hl) hr))))⟩
  | @compare l r op _ _ ihl ihr =>
    have htext : (compare op l r).text.toList = (operandText l l.text).toList ++
        ' ' :: (op.symbol.toList ++ ' ' :: (operandText r r.text).toList) := by
      rw [text]
      simp only [String.toList_append, List.append_assoc]
      rfl
    obtain ⟨ts, us, hlex, hl, hr⟩ := ihl.between ihr op.lexes_symbol htext
    exact ⟨_, hlex, .ofConjunction (.ofNegation (.ofComparison
      (.compare op (.ofChain hl) (.ofChain hr))))⟩
  | @and l r _ _ ihl ihr =>
    have htext : (and l r).text.toList = (operandText l l.text).toList ++
        ' ' :: (Keyword.and.word.toList ++ ' ' :: (operandText r r.text).toList) := by
      rw [text, String.toList_append, String.toList_append, List.append_assoc]
      rfl
    obtain ⟨ts, us, hlex, hl, hr⟩ := ihl.between ihr (.keyword .and) htext
    exact ⟨_, hlex, .ofConjunction (.and (.ofNegation hl.chain_negation) hr.chain_negation)⟩
  | @or l r _ _ ihl ihr =>
    have htext : (or l r).text.toList = (operandText l l.text).toList ++
        ' ' :: (Keyword.or.word.toList ++ ' ' :: (operandText r r.text).toList) := by
      rw [text, String.toList_append, String.toList_append, List.append_assoc]
      rfl
    obtain ⟨ts, us, hlex, hl, hr⟩ := ihl.between ihr (.keyword .or) htext
    exact ⟨_, hlex, .or hl.chain_disjunction (.ofNegation hr.chain_negation)⟩
  | not _ ih =>
    obtain ⟨ts, hlex, hder⟩ := ih.operand
    refine ⟨.keyword .not :: ts, ?_, .ofConjunction (.ofNegation (.not hder.chain_negation))⟩
    have hblank : isBlank ' ' := by decide
    have hnot := (Lexes.keyword .not).append (.blank hblank hlex) (.blank _ hblank)
    rw [text, String.toList_append]
    exact hnot
  | @call target operation arguments _ hname _ ihtarget iheach =>
    obtain ⟨ts, htarget, hder⟩ := ihtarget.operand
    obtain ⟨n, hlex, hn⟩ := hname.exists_token
    obtain ⟨c, cs, hcs, hc, hq⟩ := hname.exists_head
    obtain ⟨pairs, us, rfl, heach, hlisted, hargs⟩ := lexes_arguments iheach
    refine ⟨_, ?_, Derives.call hder hn heach hlisted⟩
    have hlist := hargs.parenthesized
    have happly := hlex.append hlist (Mark.leftParen.apart _)
    rw [hcs, List.cons_append] at happly
    have h := htarget.append (.token (by decide) (Token.read_dot hq _) happly)
      (.dot _ hc)
    rw [text]
    simp only [String.toList_append, List.append_assoc, hcs]
    exact h

/-- The text of a well-formed expression parses as the expression. -/
theorem parse_text {e : Expr} (h : WellFormed e) : parse e.text = .ok e := by
  obtain ⟨ts, hlex, hder⟩ := (prints_of_wellFormed h).disjunction
  exact parse_eq_ok_iff.mpr ⟨ts, hlex, hder⟩

theorem parse_text_mixed :
    let e : Expr := .or (.not (.compare .equal
      (.call (.path (.variable "row") [⟨"item", true⟩]) "select"
        [.literal (.int 1), .literal (.float (.finite ⟨true, 0x4004000000000000, by decide⟩))])
      (.literal (.string "a\"b")))) (.literal .null)
    e.WellFormed ∧ parse e.text = .ok e := by
  intro e
  have hfloat : Binary64.IsPlain (.finite ⟨true, 0x4004000000000000, by decide⟩) :=
    ⟨true, ['2', '.', '5'], ['2'], ['5'], by decide +kernel,
      ⟨rfl, by decide, by decide, List.all_eq_true.mp (by decide)⟩⟩
  have hstring : ∀ c ∈ "a\"b".toList, Quoted.IsPlain c := by
    intro c hc
    have hmem : c = 'a' ∨ c = '"' ∨ c = 'b' := by simpa using hc
    rcases hmem with rfl | rfl | rfl
    · exact .inl (by decide)
    · exact .inr ⟨'"', by simp, rfl⟩
    · exact .inl (by decide)
  have hwf : e.WellFormed := by
    refine .or (.not (.compare .equal (.call (.path (.name ⟨by decide, by decide⟩) nofun (by simp)
      ?_) (.inr ⟨.select, rfl⟩) ?_) (.literal hstring))) (.literal trivial)
    · intro s hs
      obtain rfl := List.mem_singleton.mp hs
      exact .inl ⟨by decide, by decide⟩
    · intro a ha
      rcases List.mem_cons.mp ha with rfl | ha
      · exact .literal trivial
      · obtain rfl := List.mem_singleton.mp ha
        exact .literal hfloat
  exact ⟨hwf, parse_text hwf⟩

end Expr

end RowQuery
