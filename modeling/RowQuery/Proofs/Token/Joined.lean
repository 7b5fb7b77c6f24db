import RowQuery.Proofs.Token.Spans

/-!
# Texts joined by blanks

Where a text ends, a token stops as it stops at a blank (`Tiles.tokenizeFrom_append`), and a text is
read the same wherever it starts, every position moved with it (`tokenizeFrom_add`). So the tokens
of two texts with blanks between them are those of the first and then those of the second
(`tokenize_joined`), and what is wrong with the second is wrong with the whole.
-/

set_option autoImplicit false

namespace RowQuery

/-! ## The place where a text starts -/

/-- The lexeme of a text that starts `n` characters further on. -/
def Lexeme.moved (n : Nat) (l : Lexeme) : Lexeme := ⟨l.token, n + l.position⟩

/-- The error of a text that starts `n` characters further on, with the complaint it has. -/
def ParseError.moved (n : Nat) (e : ParseError) : ParseError := ⟨n + e.position, e.complaint⟩

/-- The answer for a text that starts `n` characters further on. -/
def movedAnswer (n : Nat) : Except ParseError (List Lexeme) → Except ParseError (List Lexeme)
  | .ok lexemes => .ok (lexemes.map (Lexeme.moved n))
  | .error e => .error (e.moved n)

/-- Where a text starts decides the positions and nothing else. -/
theorem tokenizeFrom_add (n position : Nat) (cs : List Char) :
    tokenizeFrom (n + position) cs = movedAnswer n (tokenizeFrom position cs) := by
  fun_induction tokenizeFrom position cs with
  | case1 position => exact tokenizeFrom_nil (n + position)
  | case2 position c rest hc ih => rw [tokenizeFrom_blank hc, Nat.add_assoc, ih]
  | case3 position c rest hc complaint hread =>
    exact tokenizeFrom_error (Bool.eq_false_iff.mpr hc) hread (n + position)
  | case4 position c rest hc token after hread taken ih =>
    rw [tokenizeFrom_token (Bool.eq_false_iff.mpr hc) hread, Nat.add_assoc, ih]
    cases tokenizeFrom (position + taken) after <;> rfl

/-! ## Blanks between two texts -/

/-- Blanks before a text are skipped. -/
theorem tokenizeFrom_blanks {blanks : List Char} (h : ∀ c ∈ blanks, isBlank c) (position : Nat)
    (rest : List Char) :
    tokenizeFrom position (blanks ++ rest) = tokenizeFrom (position + blanks.length) rest := by
  induction blanks generalizing position with
  | nil => rfl
  | cons c cs ih =>
    obtain ⟨hc, hcs⟩ := List.forall_mem_cons.mp h
    rw [List.cons_append, tokenizeFrom_blank hc, ih hcs, List.length_cons, Nat.add_right_comm,
      Nat.add_assoc]

/-- Blanks, with anything behind them, stand apart from a text. -/
theorem Apart.blanks {blanks : List Char} (hne : blanks ≠ []) (h : ∀ c ∈ blanks, isBlank c)
    (rest : List Char) : Apart (blanks ++ rest) := by
  obtain ⟨c, blanks, rfl⟩ := List.exists_cons_of_ne_nil hne
  exact .blank _ (h c (List.mem_cons_self ..))

/-- A text that can be tokenized, at least one blank, and any text: the tokens of the first without
its end, and then the answer for the last, moved to where it starts. If the last can be tokenized
that is all its tokens, and otherwise the same complaint. -/
theorem tokenize_joined {a w b : String} {lexemes : List Lexeme} (ha : tokenize a = .ok lexemes)
    (hne : w ≠ "") (hw : ∀ c ∈ w.toList, isBlank c) :
    ∃ front, lexemes = front ++ [⟨.eof, a.length⟩] ∧ (∀ l ∈ front, l.token ≠ .eof) ∧
      (∀ rest, tokenize b = .ok rest →
        tokenize (a ++ w ++ b) = .ok (front ++ rest.map (Lexeme.moved (a ++ w).length))) ∧
      ∀ e, tokenize b = .error e → tokenize (a ++ w ++ b) = .error (e.moved (a ++ w).length) := by
  obtain ⟨spans, hspans, rfl⟩ := exists_tiles_of_tokenize ha
  have hcharacters : (a ++ w ++ b).toList = a.toList ++ (w.toList ++ b.toList) := by
    rw [String.toList_append, String.toList_append, List.append_assoc]
  have hlength : 0 + a.toList.length + w.toList.length = (a ++ w).length + 0 := by
    rw [Nat.zero_add, Nat.add_zero, ← List.length_append, ← String.toList_append,
      String.length_toList]
  have hapart : Apart (w.toList ++ b.toList) :=
    .blanks (mt String.toList_eq_nil_iff.mp hne) hw _
  have hwhole : tokenize (a ++ w ++ b) =
      (movedAnswer (a ++ w).length (tokenize b)).map (spans.map Span.lexeme ++ ·) := by
    rw [tokenize, hcharacters, hspans.tokenizeFrom_append hapart, tokenizeFrom_blanks hw, hlength,
      tokenizeFrom_add, tokenize]
  refine ⟨spans.map Span.lexeme, rfl, ?_, fun rest hb => ?_, fun e hb => ?_⟩
  · intro l hl
    obtain ⟨s, hs, rfl⟩ := List.mem_map.mp hl
    exact hspans.lexes.ne_eof s.token (List.mem_map_of_mem hs)
  · rw [hwhole, hb]; rfl
  · rw [hwhole, hb]; rfl

/-- The first text ends in a minus sign that the second, a number, does not complete. -/
theorem tokenize_joined_minus :
    tokenize "x -\t\n5 y" = .ok [⟨.identifier "x", 0⟩, ⟨.minus, 2⟩, ⟨.integer 5, 5⟩,
        ⟨.identifier "y", 7⟩, ⟨.eof, 8⟩] ∧
      tokenize "x -\t\n5'y" = .error ⟨6, .unterminatedString⟩ := by
  have hfront : tokenize "x -" = .ok ([⟨.identifier "x", 0⟩, ⟨.minus, 2⟩] ++ [⟨.eof, 3⟩]) := by decide +kernel
  have hnumber : tokenize "5 y" = .ok [⟨.integer 5, 0⟩, ⟨.identifier "y", 2⟩, ⟨.eof, 3⟩] := by decide +kernel
  have hquote : tokenize "5'y" = .error ⟨1, .unterminatedString⟩ := by decide +kernel
  have hblank : ∀ c ∈ "\t\n".toList, isBlank c :=
    List.forall_mem_cons.mpr ⟨by decide, List.forall_mem_singleton.mpr (by decide)⟩
  constructor
  · obtain ⟨front, hlexemes, -, hjoined, -⟩ :=
      tokenize_joined (b := "5 y") hfront (by decide) hblank
    obtain rfl := (List.append_inj' hlexemes rfl).1
    exact hjoined _ hnumber
  · obtain ⟨-, -, -, -, hjoined⟩ := tokenize_joined (b := "5'y") hfront (by decide) hblank
    exact hjoined _ hquote

end RowQuery
