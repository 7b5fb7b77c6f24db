import RowQuery.Proofs.Expr.Reading
import RowQuery.Proofs.Token.Lexes

/-!
# The reader recognises the grammar

Operators are closed as late as possible, so after a complete phrase the reading still holds it in
parts. `Rung.Holds` says which expression the parts are: a phrase of some rung changes only what
waits on that rung and the tighter ones, and closing those gives the expression.
`reads_of_derives` is the induction over the grammar, `complete_of_derives` what follows for the
expression at the head of any tokens, and the end of the file what it means for a whole list.
-/

set_option autoImplicit false

namespace RowQuery

/-- The tokens that can go on with an expression after an operand. -/
def Token.continuesExpr : Token → Bool
  | .keyword .and | .keyword .or => true
  | .comparison _ => true
  | .plus => true
  | .dot | .dotQuestion | .questionDot => true
  | .leftParen => true
  | _ => false

namespace Expr

/-! ## Reading several tokens -/

namespace Reading

/-- Reading the tokens leads from one reading to the other. -/
inductive Reaches : Reading → List Token → Reading → Prop where
  | refl (r : Reading) : Reaches r [] r
  | step {r r' r'' : Reading} {t : Token} {ts : List Token} (h : r.accept t = .ok (.more r'))
      (rest : Reaches r' ts r'') : Reaches r (t :: ts) r''

namespace Reaches

theorem single {r r' : Reading} {t : Token} (h : r.accept t = .ok (.more r')) :
    Reaches r [t] r' := .step h (.refl r')

theorem trans {r r' r'' : Reading} {ts us : List Token} (h : Reaches r ts r')
    (h' : Reaches r' us r'') : Reaches r (ts ++ us) r'' := by
  induction h with
  | refl => exact h'
  | step ht _ ih => exact .step ht (ih h')

end Reaches

/-- What is read does not change what comes after. -/
theorem read_of_reaches {r r' : Reading} {front : List Lexeme}
    (h : Reaches r (front.map Lexeme.token) r') (rest : List Lexeme) :
    read r (front ++ rest) = read r' rest := by
  induction front generalizing r with
  | nil => cases h; rfl
  | cons lexeme front ih =>
    cases h with
    | step ht h' =>
      rw [List.cons_append, read, ht]
      exact ih h'

/-! ## Where operands begin and end -/

/-- An operand may begin here. -/
def Begins (r : Reading) : Prop := r.awaiting = .operand ∨ r.awaiting = .argument

/-- Where an operand may begin, every token but those that end arguments begins one. -/
theorem Begins.accept {r : Reading} (hr : r.Begins) {t : Token} (hp : t ≠ .rightParen)
    (he : t ≠ .eof) : r.accept t = r.beginOperand t := by
  unfold Reading.accept
  rcases hr with h | h
  · rw [h]
  · rw [h]
    dsimp only
    split
    · exact absurd rfl hp
    · exact absurd rfl he
    · rfl

/-- The operand that is complete here, an open property included. -/
def operand? (r : Reading) : Option Expr :=
  match r.awaiting with
  | .operator e => some e
  | .segment e name optional => some (e.segment ⟨name, optional⟩)
  | _ => none

/-- After a complete operand only a parenthesis depends on whether it ends in a property. -/
theorem accept_of_operand {r : Reading} {e : Expr} (hr : r.operand? = some e) {t : Token}
    (ht : t ≠ .leftParen) : r.accept t = r.afterOperand e t := by
  unfold operand? at hr
  unfold accept
  split at hr
  · next h => cases hr; rw [h]
  · next h =>
    cases hr
    rw [h]
    dsimp only
    split
    · exact absurd rfl ht
    · rfl
  · cases hr

end Reading

/-! ## Phrases held in parts -/

namespace Pending

theorem negate_not (n : Nat) (e : Expr) : negate n (.not e) = .not (negate n e) := by
  induction n with
  | zero => rfl
  | succ n ih => exact congrArg Expr.not ih

end Pending

namespace Rung

/-- Nothing waits on this rung or a tighter one that has not been there before the phrase. -/
def Vacant : Rung → Pending → Prop
  | .disjunction, p => p = {}
  | .conjunction, p => p = { disjunct := p.disjunct }
  | .negation, p | .comparison, p => p.compared = none ∧ p.summand = none
  | .sum, p => p.summand = none
  | .chain, _ | .atom, _ => True

/-- With `q` waiting and the operand `o` complete, the reading holds the phrase `e` of this rung,
which began with `p` waiting. -/
def Holds : Rung → (p q : Pending) → (o e : Expr) → Prop
  | .disjunction, _, q, o, e => q.closeOr o = e
  | .conjunction, p, q, o, e => q.disjunct = p.disjunct ∧ q.closeAnd o = e
  | .negation, p, q, o, e =>
    q.disjunct = p.disjunct ∧ q.conjunct = p.conjunct ∧
      Pending.negate q.negations (q.closeComparison o) = Pending.negate p.negations e
  | .comparison, p, q, o, e =>
    q.disjunct = p.disjunct ∧ q.conjunct = p.conjunct ∧ q.negations = p.negations ∧
      q.closeComparison o = e
  | .sum, p, q, o, e =>
    q.disjunct = p.disjunct ∧ q.conjunct = p.conjunct ∧ q.negations = p.negations ∧
      q.compared = p.compared ∧ q.closeSum o = e
  | .chain, p, q, o, e | .atom, p, q, o, e => q = p ∧ o = e

end Rung

/-- Reading the tokens from `r` leads to a reading that holds `e` as a phrase of the rung, between
the same brackets. -/
def Reading.Reads (r : Reading) (rung : Rung) (ts : List Token) (e : Expr) : Prop :=
  ∃ r' o, r.Reaches ts r' ∧ r'.outer = r.outer ∧ r'.operand? = some o ∧
    rung.Holds r.pending r'.pending o e

namespace Reading

/-- A token that is an operand by itself. -/
theorem reads_operand {r : Reading} {t : Token} {e : Expr}
    (h : r.accept t = .ok (.more (r.operandRead e))) : r.Reads .atom [t] e :=
  ⟨_, e, .single h, rfl, rfl, rfl, rfl⟩

theorem beginOperand_literal {r : Reading} {t : Token} {v : Value} (h : literalOf? t = some v) :
    r.beginOperand t = .ok (.more (r.operandRead (.literal v))) := by
  cases t with
  | keyword k =>
    cases k with
    | true => cases h; rfl
    | false => cases h; rfl
    | null => cases h; rfl
    | _ => cases h
  | integer n => cases h; rfl
  | float x => cases h; rfl
  | string s => cases h; rfl
  | _ => cases h

theorem accept_negated {r : Reading} {t : Token} {v : Value} (hr : r.awaiting = .number)
    (h : negatedOf? t = some v) : r.accept t = .ok (.more (r.operandRead (.literal v))) := by
  unfold accept
  rw [hr]
  unfold negatedOf? at h
  split at h
  · next n =>
    split at h
    · cases h
    · next hn =>
      cases h
      exact if_neg hn
  · cases h; rfl
  · cases h

/-- A dot and a name after an operand. -/
theorem reaches_property {r : Reading} {o : Expr} {d n : Token} {optional : Bool} {name : String}
    (ho : r.operand? = some o) (hd : dotOf? d = some optional) (hn : n.fieldName? = some name) :
    r.Reaches [d, n] { r with awaiting := .segment o name optional } := by
  have hdot : r.accept d = .ok (.more { r with awaiting := .property o optional }) := by
    unfold dotOf? at hd
    split at hd
    · cases hd; exact accept_of_operand ho (by simp)
    · cases hd; exact accept_of_operand ho (by simp)
    · cases hd; exact accept_of_operand ho (by simp)
    · cases hd
  refine .step hdot (.single ?_)
  simp only [accept, hn]

/-- A closing parenthesis or a comma after a complete expression belongs to the bracket. -/
theorem accept_closing {r : Reading} {o e : Expr} {t : Token} (ho : r.operand? = some o)
    (he : r.pending.closeOr o = e) (ht : t.continuesExpr = false) :
    r.accept t = r.closeBracket e t := by
  have hp : t ≠ .leftParen := by rintro rfl; cases ht
  rw [accept_of_operand ho hp, ← he]
  unfold afterOperand
  split
  all_goals first | rfl | cases ht

/-- The rest of the arguments of a call, from where one may begin to the end of the bracket. -/
theorem reaches_arguments (outer : List (Pending × Bracket)) (p : Pending) (target : Expr)
    (operation : String) {arguments : List (List Token × Expr)} {us : List Token}
    (hl : Listed arguments us)
    (each : ∀ a ∈ arguments, ∀ r : Reading, r.Begins → Rung.disjunction.Vacant r.pending →
      r.Reads .disjunction a.1 a.2) (before : List Expr) :
    Reaches ⟨(p, .call target operation before) :: outer, {}, .argument⟩ (us ++ [.rightParen])
      ⟨outer, p, .operator (.call target operation (before ++ arguments.map Prod.snd))⟩ := by
  induction hl generalizing before with
  | none => exact .single (by simp [accept])
  | last ts e =>
    obtain ⟨r', o, hreach, hout, ho, he⟩ := each (ts, e) (by simp)
      ⟨(p, .call target operation before) :: outer, {}, .argument⟩ (.inr rfl) rfl
    refine hreach.trans (.single ?_)
    rw [accept_closing ho he rfl, closeBracket, hout]
    rfl
  | @more arguments us ts e _ ih =>
    obtain ⟨r', o, hreach, hout, ho, he⟩ := each (ts, e) (by simp)
      ⟨(p, .call target operation before) :: outer, {}, .argument⟩ (.inr rfl) rfl
    have hcomma : r'.accept .comma =
        .ok (.more ⟨(p, .call target operation (before ++ [e])) :: outer, {}, .argument⟩) := by
      rw [accept_closing ho he rfl, closeBracket, hout]
    have hrest := ih (fun a ha => each a (List.mem_cons_of_mem _ ha)) (before ++ [e])
    simpa using hreach.trans (.step hcomma hrest)

end Reading

/-- What the grammar derives is read as derived, wherever it may begin. The induction is on the
derivation; each rung hands the next one a reading where only what waits on looser rungs is left
over. -/
theorem reads_of_derives {rung : Rung} {ts : List Token} {e : Expr} (h : Derives rung ts e) :
    ∀ r : Reading, r.Begins → rung.Vacant r.pending → r.Reads rung ts e := by
  induction h with
  | name n =>
    intro r hr _
    exact Reading.reads_operand (hr.accept (by simp) (by simp))
  | @literal t v hv =>
    intro r hr _
    have hp : t ≠ .rightParen := by rintro rfl; cases hv
    have he : t ≠ .eof := by rintro rfl; cases hv
    exact Reading.reads_operand ((hr.accept hp he).trans (Reading.beginOperand_literal hv))
  | @negative t v hv =>
    intro r hr _
    have hminus : r.accept .minus = .ok (.more { r with awaiting := .number }) :=
      hr.accept (by simp) (by simp)
    have hnumber := Reading.accept_negated (r := { r with awaiting := .number }) rfl hv
    exact ⟨_, _, .step hminus (.single hnumber), rfl, rfl, rfl, rfl⟩
  | @group ts e _ ih =>
    intro r hr _
    have hopen : r.accept .leftParen = .ok (.more (r.enter .group .operand)) :=
      hr.accept (by simp) (by simp)
    obtain ⟨r', o, hreach, hout, ho, he⟩ := ih (r.enter .group .operand) (.inl rfl) rfl
    have hclose : r'.accept .rightParen = .ok (.more (r.operandRead e)) := by
      rw [Reading.accept_closing ho he rfl, Reading.closeBracket, hout]
      rfl
    exact ⟨_, e, .step hopen (hreach.trans (.single hclose)), rfl, rfl, rfl, rfl⟩
  | ofAtom _ ih => exact ih
  | property _ hd hn ih =>
    intro r hr hv
    obtain ⟨r', o, hreach, hout, ho, hq, rfl⟩ := ih r hr hv
    exact ⟨_, _, hreach.trans (Reading.reaches_property ho hd hn), hout, rfl, hq, rfl⟩
  | @call ts us e n name arguments _ hn _ hl ih ihArguments =>
    intro r hr hv
    obtain ⟨r', o, hreach, hout, ho, hq, rfl⟩ := ih r hr hv
    have hname := Reading.reaches_property (d := .dot) ho rfl hn
    have hopen : Reading.accept { r' with awaiting := .segment o name false } .leftParen
        = .ok (.more ⟨(r'.pending, .call o name []) :: r'.outer, {}, .argument⟩) := rfl
    have hargs := Reading.reaches_arguments r'.outer r'.pending o name hl ihArguments []
    refine ⟨⟨r'.outer, r'.pending, .operator (.call o name (arguments.map Prod.snd))⟩, _, ?_, hout,
      rfl, hq, rfl⟩
    simpa using hreach.trans (hname.trans (.step hopen hargs))
  | ofChain _ ih =>
    intro r hr hv
    obtain ⟨r', o, hreach, hout, ho, hq, rfl⟩ := ih r hr trivial
    refine ⟨r', o, hreach, hout, ho, by rw [hq], by rw [hq], by rw [hq], by rw [hq], ?_⟩
    rw [Pending.closeSum, hq, show r.pending.summand = none from hv]
  | @add ts us l r _ _ ihl ihr =>
    intro start hr hv
    obtain ⟨r₁, o₁, hreach₁, hout₁, ho₁, hd, hc, hn, hcmp, hl⟩ := ihl start hr hv
    have hplus := Reading.accept_of_operand (t := .plus) ho₁ (by simp)
    obtain ⟨r₂, o₂, hreach₂, hout₂, ho₂, hq, rfl⟩ := ihr
      { r₁ with pending := { r₁.pending with summand := some l }, awaiting := .operand }
      (.inl rfl) trivial
    refine ⟨r₂, o₂, hreach₁.trans (.step (hl ▸ hplus) hreach₂), hout₂.trans hout₁, ho₂, ?_⟩
    rw [Rung.Holds, Pending.closeSum, hq]
    exact ⟨hd, hc, hn, hcmp, rfl⟩
  | ofSum _ ih =>
    intro r hr hv
    obtain ⟨r', o, hreach, hout, ho, hd, hc, hn, hcmp, hsum⟩ := ih r hr hv.2
    refine ⟨r', o, hreach, hout, ho, hd, hc, hn, ?_⟩
    rw [Pending.closeComparison, hcmp.trans hv.1]
    exact hsum
  | @compare ts us l r op _ _ ihl ihr =>
    intro start hr hv
    obtain ⟨r₁, o₁, hreach₁, hout₁, ho₁, hd₁, hc₁, hn₁, hcmp₁, hl⟩ := ihl start hr hv.2
    let next : Reading :=
      { r₁ with pending := { r₁.pending with compared := some (op, l), summand := none },
                awaiting := .operand }
    have hop : r₁.accept (.comparison op) = .ok (.more next) := by
      rw [Reading.accept_of_operand ho₁ (by simp)]
      simp [Reading.afterOperand, hcmp₁, hv.1, hl, next]
    obtain ⟨r₂, o₂, hreach₂, hout₂, ho₂, hd₂, hc₂, hn₂, hcmp₂, hr₂⟩ := ihr next (.inl rfl) rfl
    refine ⟨r₂, o₂, hreach₁.trans (.step hop hreach₂), hout₂.trans hout₁, ho₂,
      hd₂.trans hd₁, hc₂.trans hc₁, hn₂.trans hn₁, ?_⟩
    rw [Pending.closeComparison, hcmp₂]
    exact congrArg _ hr₂
  | ofComparison _ ih =>
    intro r hr hv
    obtain ⟨r', o, hreach, hout, ho, hd, hc, hn, he⟩ := ih r hr hv
    exact ⟨r', o, hreach, hout, ho, hd, hc, by rw [hn, he]⟩
  | @not ts e _ ih =>
    intro r hr hv
    let next : Reading :=
      { r with pending := { r.pending with negations := r.pending.negations + 1 },
               awaiting := .operand }
    have hnot : r.accept (.keyword .not) = .ok (.more next) := by
      have hfree : (r.pending.compared.isNone && r.pending.summand.isNone) = true := by
        rw [hv.1, hv.2]
        rfl
      rw [hr.accept (by simp) (by simp)]
      exact if_pos hfree
    obtain ⟨r', o, hreach, hout, ho, hd, hc, he⟩ := ih next (.inl rfl) hv
    refine ⟨r', o, .step hnot hreach, hout, ho, hd, hc, ?_⟩
    rw [Pending.negate_not]
    exact he
  | ofNegation _ ih =>
    intro r hr hv
    obtain ⟨r', o, hreach, hout, ho, hd, hc, he⟩ := ih r hr (by rw [hv]; exact ⟨rfl, rfl⟩)
    refine ⟨r', o, hreach, hout, ho, hd, ?_⟩
    rw [hv] at hc he
    rw [Pending.closeAnd, hc]
    exact he
  | @and ts us l r _ _ ihl ihr =>
    intro start hr hv
    obtain ⟨r₁, o₁, hreach₁, hout₁, ho₁, hd₁, hl⟩ := ihl start hr hv
    have hand := Reading.accept_of_operand (t := .keyword .and) ho₁ (by simp)
    obtain ⟨r₂, o₂, hreach₂, hout₂, ho₂, hd₂, hc₂, he⟩ := ihr
      { r₁ with
        pending := { disjunct := r₁.pending.disjunct, conjunct := some l }, awaiting := .operand }
      (.inl rfl) ⟨rfl, rfl⟩
    refine ⟨r₂, o₂, hreach₁.trans (.step (hl ▸ hand) hreach₂), hout₂.trans hout₁, ho₂,
      hd₂.trans hd₁, ?_⟩
    rw [Pending.closeAnd, hc₂]
    exact congrArg _ he
  | ofConjunction _ ih =>
    intro r hr hv
    obtain ⟨r', o, hreach, hout, ho, hd, he⟩ := ih r hr (by rw [hv]; rfl)
    refine ⟨r', o, hreach, hout, ho, ?_⟩
    rw [hv] at hd
    rw [Rung.Holds, Pending.closeOr, hd]
    exact he
  | @or ts us l r _ _ ihl ihr =>
    intro start hr hv
    obtain ⟨r₁, o₁, hreach₁, hout₁, ho₁, hl⟩ := ihl start hr hv
    have hor := Reading.accept_of_operand (t := .keyword .or) ho₁ (by simp)
    obtain ⟨r₂, o₂, hreach₂, hout₂, ho₂, hd₂, he⟩ := ihr
      { r₁ with pending := { disjunct := some l }, awaiting := .operand } (.inl rfl) rfl
    refine ⟨r₂, o₂, hreach₁.trans (.step (hl ▸ hor) hreach₂), hout₂.trans hout₁, ho₂, ?_⟩
    rw [Rung.Holds, Pending.closeOr, hd₂]
    exact congrArg _ he

/-! ## Expressions at the head of tokens -/

/-- An expression that was read from the start is complete before any token that does not go on
with one, and that token is left to whatever comes next. -/
theorem complete_of_derives {ts : List Token} {e : Expr} (h : Derives .disjunction ts e) :
    ∃ r, Reading.start.Reaches ts r ∧
      ∀ t : Token, t.continuesExpr = false → r.accept t = .ok (.done e) := by
  obtain ⟨r, o, hreach, hout, ho, he⟩ := reads_of_derives h .start (.inl rfl) rfl
  refine ⟨r, hreach, fun t ht => ?_⟩
  rw [Reading.accept_closing ho he ht, Reading.closeBracket, hout]
  rfl

theorem read_of_derives {front : List Lexeme} {e : Expr}
    (h : Derives .disjunction (front.map Lexeme.token) e) {next : Lexeme}
    (ht : next.token.continuesExpr = false) (rest : List Lexeme) :
    read .start (front ++ next :: rest) = .ok (e, next :: rest) := by
  obtain ⟨r, hreach, hdone⟩ := complete_of_derives h
  rw [Reading.read_of_reaches hreach, read, hdone _ ht]

/-! ## Whole lists of tokens -/

/-- What comes before the only `Token.eof` of a list does not depend on where one looks for it. -/
theorem eq_of_append_eof {front front' rest : List Lexeme} {p q : Nat}
    (hfront : ∀ l ∈ front, l.token ≠ .eof)
    (h : front ++ [⟨.eof, p⟩] = front' ++ ⟨.eof, q⟩ :: rest) : front' = front := by
  rcases List.append_eq_append_iff.mp h with ⟨as, rfl, has⟩ | ⟨bs, rfl, hbs⟩
  · cases as with
    | nil => exact List.append_nil _
    | cons a as => simp at has
  · cases bs with
    | nil => exact (List.append_nil _).symm
    | cons b bs =>
      obtain ⟨rfl, -⟩ := List.cons.inj hbs
      exact absurd rfl (hfront ⟨.eof, q⟩ (by simp))

theorem derives_of_ofTokens {front : List Lexeme} {position : Nat} {e : Expr}
    (hfront : ∀ l ∈ front, l.token ≠ .eof)
    (h : ofTokens (front ++ [⟨.eof, position⟩]) = .ok e) :
    Derives .disjunction (front.map Lexeme.token) e := by
  unfold ofTokens at h
  split at h
  · cases h
  · next hread =>
    cases h
    obtain ⟨-, front', hsplit, he⟩ := derives_of_read Reading.covers_start hread
    rw [eq_of_append_eof hfront hsplit] at he
    exact he
  · cases h
  · next hread => exact absurd rfl (derives_of_read Reading.covers_start hread).1

theorem ofTokens_of_derives {front : List Lexeme} {e : Expr}
    (h : Derives .disjunction (front.map Lexeme.token) e) (position : Nat) :
    ofTokens (front ++ [⟨.eof, position⟩]) = .ok e := by
  unfold ofTokens
  rw [read_of_derives h rfl]

theorem Derives.unique {ts : List Token} {e e' : Expr} (h : Derives .disjunction ts e)
    (h' : Derives .disjunction ts e') : e = e' := by
  have hts : (ts.map fun t => (⟨t, 0⟩ : Lexeme)).map Lexeme.token = ts := by
    rw [List.map_map]
    exact List.map_id ts
  have he := ofTokens_of_derives (hts.symm ▸ h) 0
  exact Except.ok.inj (he.symm.trans (ofTokens_of_derives (hts.symm ▸ h') 0))

/-- A list of tokens that ends in its only `Token.eof` is read as `e` exactly when the grammar
derives `e` from what is before the end, and the grammar derives no two expressions from the same
tokens. -/
theorem ofTokens_iff_derives (front : List Lexeme) (position : Nat)
    (hfront : ∀ l ∈ front, l.token ≠ .eof) :
    (∀ e, ofTokens (front ++ [⟨.eof, position⟩]) = .ok e ↔
      Derives .disjunction (front.map Lexeme.token) e) ∧
    ∀ ts e e', Derives .disjunction ts e → Derives .disjunction ts e' → e = e' :=
  ⟨fun _ => ⟨derives_of_ofTokens hfront, fun h => ofTokens_of_derives h position⟩,
    fun _ _ _ h h' => h.unique h'⟩

/-- `not a + - 2 < (b.c).?d or e.from(null,)`: a path through parentheses, a call of a keyword's
name with a comma after its last argument, and the rungs in between. -/
theorem ofTokens_iff_derives_disjunction :
    let front : List Lexeme := [⟨.keyword .not, 0⟩, ⟨.identifier "a", 4⟩, ⟨.plus, 6⟩, ⟨.minus, 8⟩,
      ⟨.integer 2, 9⟩, ⟨.comparison .less, 11⟩, ⟨.leftParen, 13⟩, ⟨.identifier "b", 14⟩, ⟨.dot, 15⟩,
      ⟨.identifier "c", 16⟩, ⟨.rightParen, 17⟩, ⟨.dotQuestion, 18⟩, ⟨.identifier "d", 20⟩,
      ⟨.keyword .or, 22⟩, ⟨.identifier "e", 25⟩, ⟨.dot, 26⟩, ⟨.keyword .from', 27⟩,
      ⟨.leftParen, 31⟩, ⟨.keyword .null, 32⟩, ⟨.comma, 36⟩, ⟨.rightParen, 37⟩]
    (∀ l ∈ front, l.token ≠ .eof) ∧
    Derives .disjunction (front.map Lexeme.token)
      (.or
        (.not (.compare .less (.add (.variable "a") (.literal (.int (-2))))
          (.path (.variable "b") [⟨"c", false⟩, ⟨"d", true⟩])))
        (.call (.variable "e") "from" [.literal .null])) := by
  intro front
  have hfront : ∀ l ∈ front, l.token ≠ .eof := by decide
  exact ⟨hfront, ((ofTokens_iff_derives front 38 hfront).1 _).mp rfl⟩

/-! ## Texts -/

/-- A text is read as an expression when its tokens are derived as one. -/
theorem parse_eq_ok_iff {text : String} {e : Expr} :
    parse text = .ok e ↔ ∃ ts, Lexes text.toList ts ∧ Derives .disjunction ts e := by
  constructor
  · intro h
    unfold parse at h
    cases ht : tokenize text with
    | error c => rw [ht] at h; cases h
    | ok lexemes =>
      rw [ht] at h
      obtain ⟨front, last, rfl, hl⟩ := lexes_of_tokenizeFrom ht
      refine ⟨_, hl, derives_of_ofTokens (fun l hmem => ?_) h⟩
      exact hl.ne_eof _ (List.mem_map_of_mem hmem)
  · rintro ⟨ts, hl, he⟩
    obtain ⟨front, last, hf, rfl⟩ := hl.tokenizeFrom 0
    unfold parse tokenize
    rw [hf]
    exact ofTokens_of_derives he last

end Expr
end RowQuery
