import RowQuery.Proofs.Expr.Grammar

/-!
# What a reading has read

A reading keeps what it has read as data. `Reading.Covers r ts` says that the tokens read so far are
`ts`: the open brackets, outermost first, each after the operators that wait outside it, then the
operators that wait inside, then the operand under way. Every token keeps it so
(`accept_covers`), and an expression that is complete is derived from the tokens it covers. That is
the soundness half of reading; `Proofs/Expr/Recognition` has the other one.
-/

set_option autoImplicit false

namespace RowQuery
namespace Expr

/-! ## Operators that wait -/

/-- The tokens of a left side that waits, its operator included; none if nothing waits. -/
def Waits (rung : Rung) (op : Token) : Option Expr → List Token → Prop
  | none, ts => ts = []
  | some left, ts => ∃ us, ts = us ++ [op] ∧ Derives rung us left

/-- The tokens of the left side of a comparison that waits. -/
def Compares : Option (Comparison × Expr) → List Token → Prop
  | none, ts => ts = []
  | some (op, left), ts => Waits .sum (.comparison op) (some left) ts

namespace Pending

/-- The tokens of everything that waits, loosest first. -/
def Covers (p : Pending) (ts : List Token) : Prop :=
  ∃ ors ands comparing adding,
    ts = ors ++ ands ++ List.replicate p.negations (.keyword .not) ++ comparing ++ adding ∧
    Waits .disjunction (.keyword .or) p.disjunct ors ∧
    Waits .conjunction (.keyword .and) p.conjunct ands ∧
    Compares p.compared comparing ∧ Waits .sum .plus p.summand adding

theorem covers_empty : Covers {} [] := ⟨[], [], [], [], rfl, rfl, rfl, rfl, rfl⟩

theorem derives_negate {ts : List Token} {e : Expr} (n : Nat) (h : Derives .negation ts e) :
    Derives .negation (List.replicate n (.keyword .not) ++ ts) (negate n e) := by
  induction n with
  | zero => exact h
  | succ n ih => exact .not ih

/-! Closing what waits on a rung gives an expression of that rung. -/

theorem derives_closeSum {p : Pending} {adding ts : List Token} {e : Expr}
    (ha : Waits .sum .plus p.summand adding) (he : Derives .chain ts e) :
    Derives .sum (adding ++ ts) (p.closeSum e) := by
  unfold closeSum
  cases hs : p.summand with
  | none =>
    rw [hs] at ha
    rw [show adding = [] from ha]
    exact .ofChain he
  | some left =>
    rw [hs] at ha
    obtain ⟨us, rfl, hl⟩ := ha
    rw [List.append_assoc]
    exact .add hl he

theorem derives_closeComparison {p : Pending} {comparing adding ts : List Token} {e : Expr}
    (hc : Compares p.compared comparing) (ha : Waits .sum .plus p.summand adding)
    (he : Derives .chain ts e) :
    Derives .comparison (comparing ++ (adding ++ ts)) (p.closeComparison e) := by
  have hsum := derives_closeSum ha he
  unfold closeComparison
  cases hs : p.compared with
  | none =>
    rw [hs] at hc
    rw [show comparing = [] from hc]
    exact .ofSum hsum
  | some c =>
    obtain ⟨op, left⟩ := c
    rw [hs] at hc
    obtain ⟨us, rfl, hl⟩ := hc
    rw [List.append_assoc]
    exact .compare op hl hsum

theorem derives_closeAnd {p : Pending} {ands comparing adding ts : List Token} {e : Expr}
    (hn : Waits .conjunction (.keyword .and) p.conjunct ands)
    (hc : Compares p.compared comparing) (ha : Waits .sum .plus p.summand adding)
    (he : Derives .chain ts e) :
    Derives .conjunction
      (ands ++ (List.replicate p.negations (.keyword .not) ++ (comparing ++ (adding ++ ts))))
      (p.closeAnd e) := by
  have hneg := derives_negate p.negations (.ofComparison (derives_closeComparison hc ha he))
  unfold closeAnd
  cases hs : p.conjunct with
  | none =>
    rw [hs] at hn
    rw [show ands = [] from hn]
    exact .ofNegation hneg
  | some left =>
    rw [hs] at hn
    obtain ⟨us, rfl, hl⟩ := hn
    rw [List.append_assoc]
    exact .and hl hneg

theorem derives_closeOr {p : Pending} {bs cs : List Token} {e : Expr} (hp : p.Covers bs)
    (he : Derives .chain cs e) : Derives .disjunction (bs ++ cs) (p.closeOr e) := by
  obtain ⟨ors, ands, comparing, adding, rfl, ho, hn, hc, ha⟩ := hp
  have hand := derives_closeAnd hn hc ha he
  unfold closeOr
  cases hs : p.disjunct with
  | none =>
    rw [hs] at ho
    rw [show ors = [] from ho]
    simpa using .ofConjunction hand
  | some left =>
    rw [hs] at ho
    obtain ⟨us, rfl, hl⟩ := ho
    simpa using .or hl hand

/-! An operator after an operand closes the tighter rungs and waits itself. -/

theorem covers_plus {p : Pending} {bs cs : List Token} {e : Expr} (hp : p.Covers bs)
    (he : Derives .chain cs e) :
    Covers { p with summand := some (p.closeSum e) } (bs ++ cs ++ [.plus]) := by
  obtain ⟨ors, ands, comparing, adding, rfl, ho, hn, hc, ha⟩ := hp
  exact ⟨ors, ands, comparing, adding ++ cs ++ [.plus], by simp, ho, hn, hc,
    _, rfl, derives_closeSum ha he⟩

theorem covers_comparison {p : Pending} {bs cs : List Token} {e : Expr} (op : Comparison)
    (hp : p.Covers bs) (hnone : p.compared = none) (he : Derives .chain cs e) :
    Covers { p with compared := some (op, p.closeSum e), summand := none }
      (bs ++ cs ++ [.comparison op]) := by
  obtain ⟨ors, ands, comparing, adding, rfl, ho, hn, hc, ha⟩ := hp
  rw [hnone] at hc
  rw [show comparing = [] from hc]
  exact ⟨ors, ands, adding ++ cs ++ [.comparison op], [], by simp, ho, hn,
    ⟨_, rfl, derives_closeSum ha he⟩, rfl⟩

theorem covers_and {p : Pending} {bs cs : List Token} {e : Expr} (hp : p.Covers bs)
    (he : Derives .chain cs e) :
    Covers { disjunct := p.disjunct, conjunct := some (p.closeAnd e) }
      (bs ++ cs ++ [.keyword .and]) := by
  obtain ⟨ors, ands, comparing, adding, rfl, ho, hn, hc, ha⟩ := hp
  exact ⟨ors, _, [], [], by simp, ho, ⟨_, rfl, derives_closeAnd hn hc ha he⟩, rfl, rfl⟩

theorem covers_or {p : Pending} {bs cs : List Token} {e : Expr} (hp : p.Covers bs)
    (he : Derives .chain cs e) :
    Covers { disjunct := some (p.closeOr e) } (bs ++ cs ++ [.keyword .or]) :=
  ⟨_, [], [], [], by simp, ⟨_, rfl, derives_closeOr hp he⟩, rfl, rfl, rfl⟩

/-- A negation stands before any comparison and sum. -/
theorem covers_not {p : Pending} {bs : List Token} (hp : p.Covers bs) (hc : p.compared = none)
    (hs : p.summand = none) :
    Covers { p with negations := p.negations + 1 } (bs ++ [.keyword .not]) := by
  obtain ⟨ors, ands, comparing, adding, rfl, ho, hn, hcs, ha⟩ := hp
  rw [hc] at hcs
  rw [hs] at ha
  rw [show comparing = [] from hcs, show adding = [] from ha]
  refine ⟨ors, ands, [], [], ?_, ho, hn, ?_, ?_⟩
  · simp [List.replicate_succ']
  · exact hc ▸ rfl
  · exact hs ▸ rfl

end Pending

/-! ## Brackets and the operand under way -/

/-- The tokens of a bracket: of a call also its target, its name and the arguments that are
complete, each with the comma after it. -/
def Bracket.Covers : Bracket → List Token → Prop
  | .group, ts => ts = [.leftParen]
  | .call target operation arguments, ts =>
    ∃ us n, ∃ parts : List (List Token × Expr),
      ts = us ++ .dot :: n :: .leftParen :: parts.flatMap (fun a => a.1 ++ [.comma]) ∧
      Derives .chain us target ∧ n.fieldName? = some operation ∧ arguments = parts.map Prod.snd ∧
      ∀ a ∈ parts, Derives .disjunction a.1 a.2

/-- The tokens of the open brackets and of what waits outside each. -/
def Encloses : List (Pending × Bracket) → List Token → Prop
  | [], ts => ts = []
  | (p, b) :: outer, ts =>
    ∃ as bs cs, ts = as ++ bs ++ cs ∧ Encloses outer as ∧ p.Covers bs ∧ b.Covers cs

/-- The tokens of the operand under way. -/
def Awaiting.Covers : Awaiting → List Token → Prop
  | .operand, ts | .argument, ts => ts = []
  | .number, ts => ts = [.minus]
  | .operator e, ts => Derives .chain ts e
  | .property e optional, ts =>
    ∃ us d, ts = us ++ [d] ∧ dotOf? d = some optional ∧ Derives .chain us e
  | .segment e name optional, ts =>
    ∃ us d n, ts = us ++ [d, n] ∧ dotOf? d = some optional ∧ n.fieldName? = some name ∧
      Derives .chain us e

/-- The reading has read these tokens. Where the arguments may end no operator waits for one more. -/
def Reading.Covers (r : Reading) (ts : List Token) : Prop :=
  ∃ as bs cs, ts = as ++ bs ++ cs ∧ Encloses r.outer as ∧ r.pending.Covers bs ∧
    r.awaiting.Covers cs ∧ (r.awaiting = .argument → bs = [])

/-- What one token has come to after the tokens `ts`: it is read too, or `ts` are an expression. -/
def Step.Covers : Step → List Token → Token → Prop
  | .more r, ts, t => r.Covers (ts ++ [t])
  | .done e, ts, _ => Derives .disjunction ts e

namespace Reading

theorem covers_start : Covers .start [] := ⟨[], [], [], rfl, rfl, Pending.covers_empty, rfl, nofun⟩

/-- A complete operand stands where the reading is. -/
theorem covers_operandRead {r : Reading} {as bs cs : List Token} {e : Expr}
    (ho : Encloses r.outer as) (hp : r.pending.Covers bs) (he : Derives .chain cs e) :
    (r.operandRead e).Covers (as ++ bs ++ cs) := ⟨as, bs, cs, rfl, ho, hp, he, nofun⟩

theorem beginOperand_covers {r : Reading} {as bs : List Token} {t : Token} {s : Step}
    (ho : Encloses r.outer as) (hp : r.pending.Covers bs) (h : r.beginOperand t = .ok s) :
    s.Covers (as ++ bs) t := by
  have literal : ∀ v, literalOf? t = some v →
      (r.operandRead (.literal v)).Covers (as ++ bs ++ [t]) := fun v hv =>
    covers_operandRead ho hp (.ofAtom (.literal hv))
  cases t with
  | identifier name => cases h; exact covers_operandRead ho hp (.ofAtom (.name name))
  | integer n => cases h; exact literal _ rfl
  | float x => cases h; exact literal _ rfl
  | string s => cases h; exact literal _ rfl
  | keyword k =>
    cases k with
    | true => cases h; exact literal _ rfl
    | false => cases h; exact literal _ rfl
    | null => cases h; exact literal _ rfl
    | not =>
      unfold beginOperand at h
      dsimp only at h
      split at h
      · next hfree =>
        cases h
        simp only [Bool.and_eq_true, Option.isNone_iff_eq_none] at hfree
        exact ⟨as, bs ++ [.keyword .not], [], by simp, ho,
          Pending.covers_not hp hfree.1 hfree.2, rfl, nofun⟩
      · cases h
    | _ => cases h
  | minus => cases h; exact ⟨as, bs, [.minus], rfl, ho, hp, rfl, nofun⟩
  | leftParen =>
    cases h
    refine ⟨as ++ bs ++ [.leftParen], [], [], by simp, ?_, Pending.covers_empty, rfl, nofun⟩
    exact ⟨as, bs, [.leftParen], rfl, ho, hp, rfl⟩
  | _ => cases h

/-- The tokens of a call whose arguments are all complete. -/
theorem derives_call {target : Expr} {operation : String} {arguments : List Expr}
    {cs ds us : List Token} (last : List (List Token × Expr))
    (hb : Bracket.Covers (.call target operation arguments) cs)
    (hlast : ∀ a ∈ last, Derives .disjunction a.1 a.2) (hl : Listed last ds)
    (hus : us = cs ++ ds ++ [.rightParen]) :
    Derives .chain us (.call target operation (arguments ++ last.map Prod.snd)) := by
  obtain ⟨vs, n, parts, rfl, ht, hn, rfl, hall⟩ := hb
  have listed : ∀ ps : List (List Token × Expr),
      Listed (ps ++ last) (ps.flatMap (fun a => a.1 ++ [.comma]) ++ ds) := by
    intro ps
    induction ps with
    | nil => exact hl
    | cons a ps ih => simpa using Listed.more a.1 a.2 ih
  have hcall := Derives.call ht hn (fun a ha => (List.mem_append.mp ha).elim (hall a) (hlast a))
    (listed parts)
  subst hus
  simpa using hcall

theorem closeBracket_covers {r : Reading} {as ds : List Token} {e : Expr} {t : Token} {s : Step}
    (ho : Encloses r.outer as) (he : Derives .disjunction ds e)
    (h : r.closeBracket e t = .ok s) : s.Covers (as ++ ds) t := by
  unfold closeBracket at h
  split at h
  · next hr =>
    cases h
    rw [hr] at ho
    rw [show as = [] from ho]
    exact he
  · next p outer hr =>
    rw [hr] at ho
    obtain ⟨as', bs, cs, rfl, ho', hp, rfl⟩ := ho
    split at h
    · cases h
      exact ⟨as', bs, .leftParen :: (ds ++ [.rightParen]), by simp, ho', hp, .ofAtom (.group he),
        nofun⟩
    · cases h
  · next p target operation arguments outer hr =>
    rw [hr] at ho
    obtain ⟨as', bs, cs, rfl, ho', hp, hb⟩ := ho
    split at h
    · cases h
      obtain ⟨us, n, parts, rfl, ht, hn, rfl, hall⟩ := hb
      refine ⟨_, [], [], ?_, ⟨as', bs, _, rfl, ho', hp, us, n, parts ++ [(ds, e)], rfl, ht, hn,
        by simp, ?_⟩, Pending.covers_empty, rfl, fun _ => rfl⟩
      · simp
      · intro a ha
        rcases List.mem_append.mp ha with ha | ha
        · exact hall a ha
        · rw [List.mem_singleton.mp ha]; exact he
    · cases h
      have hcall := derives_call [(ds, e)] hb
        (fun a ha => List.mem_singleton.mp ha ▸ he) (.last ds e) rfl
      exact ⟨as', bs, _, by simp, ho', hp, hcall, nofun⟩
    · cases h

theorem afterOperand_covers {r : Reading} {as bs cs : List Token} {e : Expr} {t : Token}
    {s : Step} (ho : Encloses r.outer as) (hp : r.pending.Covers bs) (he : Derives .chain cs e)
    (h : r.afterOperand e t = .ok s) : s.Covers (as ++ bs ++ cs) t := by
  have close : r.closeBracket (r.pending.closeOr e) t = .ok s → s.Covers (as ++ bs ++ cs) t := by
    intro hs
    rw [List.append_assoc]
    exact closeBracket_covers ho (Pending.derives_closeOr hp he) hs
  unfold afterOperand at h
  split at h
  case h_1 => cases h; exact ⟨as, bs, cs ++ [.dot], by simp, ho, hp, ⟨cs, .dot, rfl, rfl, he⟩, nofun⟩
  case h_2 =>
    cases h
    exact ⟨as, bs, cs ++ [.dotQuestion], by simp, ho, hp, ⟨cs, .dotQuestion, rfl, rfl, he⟩, nofun⟩
  case h_3 =>
    cases h
    exact ⟨as, bs, cs ++ [.questionDot], by simp, ho, hp, ⟨cs, .questionDot, rfl, rfl, he⟩, nofun⟩
  case h_4 => cases h; exact ⟨as, _, [], by simp, ho, Pending.covers_plus hp he, rfl, nofun⟩
  case h_5 op =>
    dsimp only at h
    split at h
    · next hnone =>
      cases h
      exact ⟨as, _, [], by simp, ho,
        Pending.covers_comparison op hp (Option.isNone_iff_eq_none.mp hnone) he, rfl, nofun⟩
    · exact close h
  case h_6 => cases h; exact ⟨as, _, [], by simp, ho, Pending.covers_and hp he, rfl, nofun⟩
  case h_7 => cases h; exact ⟨as, _, [], by simp, ho, Pending.covers_or hp he, rfl, nofun⟩
  case h_8 => exact close h

/-- Reading one token keeps account of what has been read. -/
theorem accept_covers {r : Reading} {ts : List Token} {t : Token} {s : Step} (hr : r.Covers ts)
    (h : r.accept t = .ok s) : s.Covers ts t := by
  obtain ⟨as, bs, cs, rfl, ho, hp, hw, harg⟩ := hr
  unfold accept at h
  split at h
  case h_1 ha =>
    rw [ha] at hw
    rw [show cs = [] from hw, List.append_nil]
    exact beginOperand_covers ho hp h
  case h_2 ha =>
    rw [ha] at hw
    rw [show cs = [] from hw, List.append_nil]
    split at h
    · next p target operation arguments outer hout =>
      cases h
      rw [hout] at ho
      obtain ⟨as', bs', cs', rfl, ho', hp', hb⟩ := ho
      have hcall := derives_call [] hb (by simp) .none rfl
      rw [List.map_nil, List.append_nil, List.append_nil] at hcall
      rw [harg ha]
      exact ⟨as', bs', _, by simp, ho', hp', hcall, nofun⟩
    · cases h
    · exact beginOperand_covers ho hp h
  case h_3 ha =>
    rw [ha] at hw
    rw [show cs = [.minus] from hw]
    split at h
    · next n =>
      split at h
      · cases h
      · next hn =>
        cases h
        have hv : negatedOf? (.integer n) = some (.int (-n)) := if_neg hn
        exact ⟨as, bs, _, by simp, ho, hp, .ofAtom (.negative hv), nofun⟩
    · next x =>
      cases h
      exact ⟨as, bs, _, by simp, ho, hp, .ofAtom (.negative (t := .float x) rfl), nofun⟩
    · cases h
  case h_4 e ha =>
    rw [ha] at hw
    exact afterOperand_covers ho hp hw h
  case h_5 e optional ha =>
    rw [ha] at hw
    obtain ⟨us, d, rfl, hd, he⟩ := hw
    split at h
    · next name hname =>
      cases h
      exact ⟨as, bs, us ++ [d, t], by simp, ho, hp, ⟨us, d, t, rfl, hd, hname, he⟩, nofun⟩
    · cases h
  case h_6 e name optional ha =>
    rw [ha] at hw
    obtain ⟨us, d, n, rfl, hd, hn, he⟩ := hw
    split at h
    · split at h
      · cases h
      · next hopt =>
        cases h
        refine ⟨as ++ bs ++ (us ++ [d, n, .leftParen]), [], [], by simp, ?_, Pending.covers_empty,
          rfl, fun _ => rfl⟩
        have hdot : d = .dot := by
          unfold dotOf? at hd
          split at hd <;> simp_all
        exact ⟨as, bs, _, rfl, ho, hp, us, n, [], by simp [hdot], he, hn, rfl, by simp⟩
    · exact afterOperand_covers ho hp (.property he hd hn) h

end Reading

/-! ## Runs -/

/-- What is left after reading from `r`, which had read `ts`: the rest of the tokens were read and
make an expression. -/
theorem derives_of_read {r : Reading} {ts : List Token} {lexemes rest : List Lexeme} {e : Expr}
    (hr : r.Covers ts) (h : read r lexemes = .ok (e, rest)) :
    rest ≠ [] ∧ ∃ front, lexemes = front ++ rest ∧
      Derives .disjunction (ts ++ front.map Lexeme.token) e := by
  induction lexemes generalizing r ts with
  | nil => cases h
  | cons lexeme lexemes ih =>
    unfold read at h
    split at h
    · cases h
    · next next hstep =>
      obtain ⟨hne, front, rfl, he⟩ := ih (Reading.accept_covers hr hstep) h
      exact ⟨hne, lexeme :: front, rfl, by simpa using he⟩
    · next e' hstep =>
      cases h
      have he : Derives .disjunction ts e := Reading.accept_covers hr hstep
      exact ⟨by simp, [], rfl, by simpa using he⟩

end Expr
end RowQuery
