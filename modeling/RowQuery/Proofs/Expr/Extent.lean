import RowQuery.Proofs.Expr.Completion

/-!
# How far an expression reaches

The reader takes one token at a time and decides at one of them, at `Token.eof` at the latest
(`exists_decidesAt`): there it refuses the token, or the expression was complete before it. What was
read is then a matter of the tokens that were taken, and of no other: wherever these stand in a list
of tokens, the same expression is read from them, as long as nothing goes on with it behind them
(`read_extent`).
-/

set_option autoImplicit false

namespace RowQuery
namespace Expr

/-- No expression is made of no tokens. -/
theorem Derives.ne_nil {rung : Rung} {ts : List Token} {e : Expr} (h : Derives rung ts e) :
    ts ≠ [] := by
  induction h with
  | name | literal | negative | group | property | call | add | compare | not | and | or => simp
  | ofAtom _ ih | ofChain _ ih | ofSum _ ih | ofComparison _ ih | ofNegation _ ih
  | ofConjunction _ ih => exact ih

/-! ## The tokens at a place of a list -/

/-- The tokens from one place of a list up to another. -/
def tokensAt (tokens : List Lexeme) (start stop : Nat) : List Token :=
  (tokens.extract start stop).map Lexeme.token

variable {tokens : List Lexeme} {start stop : Nat}

theorem lt_of_tokensAt_ne_nil (h : tokensAt tokens start stop ≠ []) : start < stop := by
  refine Nat.lt_of_not_le fun hle => h ?_
  rw [tokensAt, List.extract_eq_take_drop, Nat.sub_eq_zero_of_le hle, List.take_zero, List.map_nil]

theorem drop_eq_extract_append (h : start ≤ stop) :
    tokens.drop start = tokens.extract start stop ++ tokens.drop stop := by
  have hcut := List.take_append_drop (stop - start) (tokens.drop start)
  rw [List.drop_drop, Nat.add_sub_cancel' h] at hcut
  rw [List.extract_eq_take_drop, hcut]

/-- A list of tokens, from a place in it on, is cut where some of them have been taken. -/
theorem extract_of_drop {taken rest : List Lexeme} {next : Lexeme}
    (h : tokens.drop start = taken ++ next :: rest) :
    tokens.extract start (start + taken.length) = taken ∧
      tokens[start + taken.length]? = some next ∧
      tokens.drop (start + taken.length) = next :: rest := by
  have hdrop : tokens.drop (start + taken.length) = next :: rest := by
    rw [← List.drop_drop, h, List.drop_left]
  refine ⟨?_, ?_, hdrop⟩
  · rw [List.extract_eq_take_drop, Nat.add_sub_cancel_left, h, List.take_left]
  · rw [← List.head?_drop, hdrop, List.head?_cons]

/-- The end of the tokens stands behind every place before it. -/
theorem eof_mem_drop {last : Nat} (hlast : tokens.getLast? = some ⟨.eof, last⟩)
    (hstart : start < tokens.length) : Token.eof ∈ (tokens.drop start).map Lexeme.token := by
  have hdrop : (tokens.drop start).getLast? = some ⟨.eof, last⟩ := by
    rw [List.getLast?_drop, if_neg (Nat.not_le.mpr hstart), hlast]
  exact List.mem_map_of_mem (List.mem_of_getLast? hdrop)

/-! ## Where reading stops -/

/-- From `start` on the reader takes one token after the other, and the token at `stop` is the first
one after which it does not go on. -/
def DecidesAt (tokens : List Lexeme) (start stop : Nat) : Prop :=
  ∃ r lexeme, Reading.start.Reaches (tokensAt tokens start stop) r ∧ tokens[stop]? = some lexeme ∧
    ∀ r', r.accept lexeme.token ≠ .ok (.more r')

theorem decidesAt_of_drop {taken rest : List Lexeme} {next : Lexeme} {r : Reading}
    (hsplit : tokens.drop start = taken ++ next :: rest)
    (hreach : Reading.start.Reaches (taken.map Lexeme.token) r)
    (hstop : ∀ r', r.accept next.token ≠ .ok (.more r')) :
    DecidesAt tokens start (start + taken.length) := by
  obtain ⟨htaken, hnext, -⟩ := extract_of_drop hsplit
  exact ⟨r, next, by rwa [tokensAt, htaken], hnext, hstop⟩

theorem DecidesAt.lt_length (h : DecidesAt tokens start stop) : stop < tokens.length := by
  obtain ⟨-, lexeme, -, hstop, -⟩ := h
  exact (List.getElem?_eq_some_iff.mp hstop).1

/-- Where the end of the tokens is still ahead, reading decides at some token, and its answer is
about that token. -/
theorem exists_decidesAt (heof : Token.eof ∈ (tokens.drop start).map Lexeme.token) :
    ∃ stop, start ≤ stop ∧ DecidesAt tokens start stop ∧
      ((∃ lexeme complaint, tokens[stop]? = some lexeme ∧
          read .start (tokens.drop start) = .error ⟨lexeme.position, complaint⟩) ∨
        ∃ e, read .start (tokens.drop start) = .ok (e, tokens.drop stop)) := by
  cases hread : read .start (tokens.drop start) with
  | error e =>
    rcases reaches_of_read_error hread with
      ⟨taken, next, rest, r, hsplit, hposition, hreach, hrefused⟩ | ⟨r, hreach⟩
    · refine ⟨_, Nat.le_add_right _ _, decidesAt_of_drop hsplit hreach (by rw [hrefused]; nofun),
        .inl ⟨next, e.complaint, (extract_of_drop hsplit).2.1, ?_⟩⟩
      rw [hposition]
    · -- every token was taken, the end among them, but no reading goes on after it
      exact absurd heof hreach.eof_not_mem
  | ok answer =>
    obtain ⟨e, left⟩ := answer
    obtain ⟨taken, next, rest, r, hsplit, rfl, hreach, hdone⟩ := reaches_of_read_ok hread
    refine ⟨_, Nat.le_add_right _ _, decidesAt_of_drop hsplit hreach (by rw [hdone]; nofun),
      .inr ⟨e, ?_⟩⟩
    rw [(extract_of_drop hsplit).2.2]

/-- What has been read is an expression by the grammar. -/
theorem derives_tokensAt {e : Expr} (hle : start ≤ stop)
    (h : read .start (tokens.drop start) = .ok (e, tokens.drop stop)) :
    Derives .disjunction (tokensAt tokens start stop) e := by
  obtain ⟨-, taken, hsplit, hderives⟩ := derives_of_read Reading.covers_start h
  rw [drop_eq_extract_append hle] at hsplit
  rwa [tokensAt, List.append_cancel_right hsplit]

/-- An expression of the grammar is read wherever its tokens stand with nothing behind them that
goes on with it. -/
theorem read_of_tokensAt {e : Expr} {next : Lexeme}
    (h : Derives .disjunction (tokensAt tokens start stop) e) (hnext : tokens[stop]? = some next)
    (hends : next.token.continuesExpr = false) :
    read .start (tokens.drop start) = .ok (e, tokens.drop stop) := by
  have hlt : start < stop := lt_of_tokensAt_ne_nil h.ne_nil
  obtain ⟨rest, hrest⟩ := List.head?_eq_some_iff.mp (List.head?_drop.trans hnext)
  rw [drop_eq_extract_append (Nat.le_of_lt hlt), hrest]
  exact read_of_derives h hends rest

/-- From a list that ends in `Token.eof`, and from any place in it, reading ends: it takes some
tokens, one after the other, and decides at the next, which is still in the list. If that token is
refused, the error is there. Else at least one token was taken, and the expression depends on the
tokens taken alone: wherever the same tokens stand in a list, and the one behind them does not go on
with an expression, the same expression is read and as many tokens are taken. -/
theorem read_extent {last : Nat} (hlast : tokens.getLast? = some ⟨.eof, last⟩)
    (hstart : start < tokens.length) :
    ∃ stop, start ≤ stop ∧ stop < tokens.length ∧ DecidesAt tokens start stop ∧
      ((∃ lexeme complaint, tokens[stop]? = some lexeme ∧
          read .start (tokens.drop start) = .error ⟨lexeme.position, complaint⟩) ∨
        ∃ e, start < stop ∧ read .start (tokens.drop start) = .ok (e, tokens.drop stop) ∧
          ∀ (others : List Lexeme) (start' stop' : Nat) (next : Lexeme),
            tokensAt others start' stop' = tokensAt tokens start stop → others[stop']? = some next →
            next.token.continuesExpr = false →
            read .start (others.drop start') = .ok (e, others.drop stop')) := by
  obtain ⟨stop, hle, hdecides, hrefused | ⟨e, hread⟩⟩ :=
    exists_decidesAt (eof_mem_drop hlast hstart)
  · exact ⟨stop, hle, hdecides.lt_length, hdecides, .inl hrefused⟩
  · have hderives : Derives .disjunction (tokensAt tokens start stop) e :=
      derives_tokensAt hle hread
    refine ⟨stop, hle, hdecides.lt_length, hdecides, .inr ⟨e, ?_, hread, ?_⟩⟩
    · exact lt_of_tokensAt_ne_nil hderives.ne_nil
    · intro others start' stop' next hsame hnext hends
      exact read_of_tokensAt (hsame ▸ hderives) hnext hends

/-- A call between two words of a query, and the same call before a comma. -/
theorem read_extent_call :
    let tokens := Token.lexemes [.keyword .on, .identifier "x", .dot, .identifier "f", .leftParen,
      .rightParen, .keyword .as', .eof]
    let others := Token.lexemes [.identifier "x", .dot, .identifier "f", .leftParen, .rightParen,
      .comma]
    DecidesAt tokens 1 6 ∧
      read .start others = .ok (.call (.variable "x") "f" [], Token.lexemes [.comma]) := by
  intro tokens others
  have hlast : tokens.getLast? = some ⟨.eof, 0⟩ := rfl
  have hstart : 1 < tokens.length := by decide
  obtain ⟨stop, -, hlt, hdecides, ⟨lexeme, complaint, -, hread⟩ | ⟨e, -, hread, hsame⟩⟩ :=
    read_extent hlast hstart
  · cases hread
  · have hcall : (.call (.variable "x") "f" [], tokens.drop 6) = (e, tokens.drop stop) :=
      Except.ok.inj hread
    obtain ⟨rfl, hdrop⟩ := Prod.mk.inj hcall
    obtain rfl : stop = 6 := by
      have hlength := congrArg List.length hdrop
      rw [List.length_drop, List.length_drop] at hlength
      have hcount : tokens.length = 8 := rfl
      omega
    exact ⟨hdecides, hsame others 0 5 ⟨.comma, 0⟩ rfl rfl rfl⟩

end Expr
end RowQuery
