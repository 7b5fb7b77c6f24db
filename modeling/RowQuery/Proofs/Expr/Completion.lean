import RowQuery.Proofs.Expr.Recognition

/-!
# Every prefix of an expression can be gone on with

Whatever a reading has read, there are tokens that complete it: an operand where one is awaited, and
then a parenthesis for each bracket that is open (`Reading.exists_completion`). So a token is
refused only where no expression goes on with it. `FirstOffence` says this of a position, and it is
what a complaint about a list of tokens comes to (`firstOffence_of_ofTokens`).
-/

set_option autoImplicit false

namespace RowQuery

/-- The position is that of the first token with which no accepted list goes on: the tokens before it
are the beginning of a list that is accepted and ends in its only `Token.eof`, but together with it
they begin none. Of `Token.eof` this says that what is before it is not accepted by itself. -/
def FirstOffence (accepted : List Lexeme → Prop) (lexemes : List Lexeme) (position : Nat) : Prop :=
  ∃ front lexeme back, lexemes = front ++ lexeme :: back ∧ lexeme.position = position ∧
    (∃ more last, (∀ l ∈ front ++ more, l.token ≠ .eof) ∧
      accepted (front ++ more ++ [⟨.eof, last⟩])) ∧
    ∀ more, ¬accepted (front ++ lexeme :: more)

/-- The tokens, wherever they stand. -/
def Token.lexemes (ts : List Token) : List Lexeme := ts.map fun t => ⟨t, 0⟩

theorem Token.map_token_lexemes (ts : List Token) : (lexemes ts).map Lexeme.token = ts := by
  unfold lexemes
  rw [List.map_map]
  exact List.map_id ts

namespace Expr
namespace Reading

/-! ## Completing what has been read -/

/-- Up to a complete operand in the same brackets it takes at most one token. -/
theorem exists_operand (r : Reading) : ∃ ts r' o, Token.eof ∉ ts ∧ r.Reaches ts r' ∧
    r'.outer = r.outer ∧ r'.operand? = some o := by
  have begin (hr : r.Begins) : r.accept (.identifier "x") =
      .ok (.more (r.operandRead (.variable "x"))) := hr.accept (by simp) (by simp)
  cases h : r.awaiting with
  | operand =>
    exact ⟨[.identifier "x"], _, .variable "x", by simp, .single (begin (.inl h)), rfl, rfl⟩
  | argument =>
    exact ⟨[.identifier "x"], _, .variable "x", by simp, .single (begin (.inr h)), rfl, rfl⟩
  | number =>
    exact ⟨[.integer 0], _, _, by simp, .single (accept_negated h (v := .int (-0)) rfl), rfl, rfl⟩
  | operator e => exact ⟨[], r, e, by simp, .refl r, rfl, by rw [operand?, h]⟩
  | property e optional =>
    refine ⟨[.identifier "x"], { r with awaiting := .segment e "x" optional }, _, by simp,
      .single ?_, rfl, rfl⟩
    unfold accept
    rw [h]
    rfl
  | segment e name optional => exact ⟨[], r, _, by simp, .refl r, rfl, by rw [operand?, h]⟩

/-- A parenthesis closes each bracket, whichever it is. The induction is on the open brackets. -/
theorem exists_closed (outer : List (Pending × Bracket)) : ∀ (r : Reading) (o : Expr),
    r.outer = outer → r.operand? = some o → ∃ ts r' o', Token.eof ∉ ts ∧ r.Reaches ts r' ∧
      r'.outer = [] ∧ r'.operand? = some o' := by
  induction outer with
  | nil => exact fun r o hr ho => ⟨[], r, o, by simp, .refl r, hr, ho⟩
  | cons entry outer ih =>
    intro r o hr ho
    obtain ⟨pending, bracket⟩ := entry
    have hclose : ∃ e, r.accept .rightParen = .ok (.more ⟨outer, pending, .operator e⟩) := by
      rw [accept_closing ho rfl rfl, closeBracket, hr]
      cases bracket with
      | group => exact ⟨_, rfl⟩
      | call target operation arguments => exact ⟨_, rfl⟩
    obtain ⟨e, hclose⟩ := hclose
    obtain ⟨ts, r', o', heof, hreach, hout, ho'⟩ := ih ⟨outer, pending, .operator e⟩ e rfl rfl
    exact ⟨.rightParen :: ts, r', o', by simp [heof], .step hclose hreach, hout, ho'⟩

/-- Any reading can be completed; the expression then ends before whatever does not go on with
it. -/
theorem exists_completion (r : Reading) : ∃ ts r' e, Token.eof ∉ ts ∧ r.Reaches ts r' ∧
    ∀ t : Token, t.continuesExpr = false → r'.accept t = .ok (.done e) := by
  obtain ⟨ts, r₁, o, heof, hreach, -, ho⟩ := exists_operand r
  obtain ⟨us, r₂, o', heof', hreach', hout, ho'⟩ := exists_closed r₁.outer r₁ o rfl ho
  refine ⟨ts ++ us, r₂, r₂.pending.closeOr o', by simp [heof, heof'], hreach.trans hreach', ?_⟩
  intro t ht
  rw [accept_closing ho' rfl ht, closeBracket, hout]

/-! ## The end of the tokens -/

/-- No reading goes on after the end of the tokens. -/
theorem accept_eof_ne_more (r r' : Reading) : r.accept .eof ≠ .ok (.more r') := by
  have close (e : Expr) : r.closeBracket e .eof ≠ .ok (.more r') := by
    unfold closeBracket
    split
    · nofun
    · nofun
    · nofun
  unfold accept
  split
  · nofun
  · nofun
  · nofun
  · exact close _
  · nofun
  · exact close _

end Reading

variable {r : Reading} {lexemes rest : List Lexeme}

theorem Reading.Reaches.eof_not_mem {r' : Reading} {ts : List Token} (h : r.Reaches ts r') :
    Token.eof ∉ ts := by
  induction h with
  | refl => simp
  | step ht _ ih =>
    rintro (_ | ⟨_, hmem⟩)
    · exact accept_eof_ne_more _ _ ht
    · exact ih hmem

/-! ## What reading comes to -/

/-- An expression was read up to the token that it ends before. -/
theorem reaches_of_read_ok {e : Expr} (h : read r lexemes = .ok (e, rest)) :
    ∃ front next back r', lexemes = front ++ next :: back ∧ rest = next :: back ∧
      r.Reaches (front.map Lexeme.token) r' ∧ r'.accept next.token = .ok (.done e) := by
  induction lexemes generalizing r with
  | nil => cases h
  | cons lexeme lexemes ih =>
    unfold read at h
    split at h
    · cases h
    · next r₁ hstep =>
      obtain ⟨front, next, back, r', rfl, hrest, hreach, hdone⟩ := ih h
      exact ⟨lexeme :: front, next, back, r', rfl, hrest, .step hstep hreach, hdone⟩
    · next hstep =>
      cases h
      exact ⟨[], lexeme, lexemes, r, rfl, rfl, .refl r, hstep⟩

/-- Where reading fails, a token is refused, or all tokens were read and there was no end. -/
theorem reaches_of_read_error {e : ParseError} (h : read r lexemes = .error e) :
    (∃ front next back r', lexemes = front ++ next :: back ∧ next.position = e.position ∧
      r.Reaches (front.map Lexeme.token) r' ∧ r'.accept next.token = .error e.complaint) ∨
    ∃ r', r.Reaches (lexemes.map Lexeme.token) r' := by
  induction lexemes generalizing r with
  | nil => exact .inr ⟨r, .refl r⟩
  | cons lexeme lexemes ih =>
    unfold read at h
    split at h
    · next hstep =>
      cases h
      exact .inl ⟨[], lexeme, lexemes, r, rfl, rfl, .refl r, hstep⟩
    · next r₁ hstep =>
      rcases ih h with ⟨front, next, back, r', rfl, hposition, hreach, hrefused⟩ | ⟨r', hreach⟩
      · exact .inl ⟨lexeme :: front, next, back, r', rfl, hposition, .step hstep hreach, hrefused⟩
      · exact .inr ⟨r', .step hstep hreach⟩
    · cases h

/-! ## The first token that does not go on -/

/-- Tokens that have been read begin an expression. -/
theorem exists_ofTokens_of_reaches {front : List Lexeme} (h : Reading.start.Reaches
    (front.map Lexeme.token) r) : ∃ more last, (∀ l ∈ front ++ more, l.token ≠ .eof) ∧
      ∃ e, ofTokens (front ++ more ++ [⟨.eof, last⟩]) = .ok e := by
  obtain ⟨ts, r', e, heof, hreach, hend⟩ := r.exists_completion
  have hall : Reading.start.Reaches ((front ++ Token.lexemes ts).map Lexeme.token) r' := by
    rw [List.map_append, Token.map_token_lexemes]
    exact h.trans hreach
  refine ⟨Token.lexemes ts, 0, fun l hl hleof => ?_, e, ?_⟩
  · exact hall.eof_not_mem (hleof ▸ List.mem_map_of_mem hl)
  · unfold ofTokens
    rw [Reading.read_of_reaches hall, read, hend .eof rfl]

/-- A list of tokens that is no expression is complained about at the first token that no expression
goes on with. -/
theorem firstOffence_of_ofTokens {front : List Lexeme} {last : Nat} {e : ParseError}
    (h : ofTokens (front ++ [⟨.eof, last⟩]) = .error e) :
    FirstOffence (fun ls => ∃ e, ofTokens ls = .ok e) (front ++ [⟨.eof, last⟩]) e.position := by
  unfold ofTokens at h
  split at h
  · next hread =>
    cases h
    rcases reaches_of_read_error hread with
      ⟨front', next, back, r, hsplit, hposition, hreach, hrefused⟩ | ⟨r, hreach⟩
    · refine ⟨front', next, back, hsplit, hposition, exists_ofTokens_of_reaches hreach, ?_⟩
      rintro more ⟨e', he'⟩
      unfold ofTokens at he'
      rw [Reading.read_of_reaches hreach, read, hrefused] at he'
      cases he'
    · exact absurd (by simp) hreach.eof_not_mem
  · cases h
  · next token position back hne hread =>
    -- the expression was complete, and something follows it that is not the end
    cases h
    obtain ⟨front', next, back', r, hsplit, hrest, hreach, hdone⟩ := reaches_of_read_ok hread
    cases hrest
    refine ⟨front', _, _, hsplit, rfl, exists_ofTokens_of_reaches hreach, ?_⟩
    rintro more ⟨e', he'⟩
    unfold ofTokens at he'
    rw [Reading.read_of_reaches hreach, read, hdone] at he'
    split at he'
    · next hread' => cases hread'
    · next hread' =>
      cases hread'
      exact hne rfl
    · cases he'
    · next hread' => cases hread'
  · cases h

end Expr
end RowQuery
