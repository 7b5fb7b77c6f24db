import RowQuery.Proofs.Expr.Completion
import RowQuery.Proofs.Query.Reading

/-!
# A text is refused at its first token that cannot stand there

The counterpart of `Proofs/Expr/Completion` for queries: from every place between two tokens some
tokens lead to the end of a query (`Reading.completable`), so a token is refused only where no
query goes on with it. With the positions that `tokenize` gives, this says where the complaint about a
text points (`firstOffence_of_parse`).
-/

set_option autoImplicit false

namespace RowQuery
namespace Query

namespace Reading

/-! ## Completing what has been read -/

/-- Some tokens lead from here to the end of a query. -/
def Completable (r : Reading) : Prop := ∃ ts q, Token.eof ∉ ts ∧ Reaches r ts (.closed q)

variable {r r' : Reading} {t : Token} (d : Draft) (items : List Item) (fields : Projection)

theorem Completable.step (h : r.accept t = .ok r') (ht : Token.eof ≠ t) (h' : r'.Completable) :
    r.Completable := by
  obtain ⟨ts, q, heof, hreach⟩ := h'
  exact ⟨t :: ts, q, by simp [ht, heof], .step h hreach⟩

/-- The expression under way is completed and then the token that goes on with the clause. -/
theorem Completable.ofExpr {goOn : Expr.Reading → Reading}
    {finish : Token → Expr → Except Complaint Reading} {next : Expr → Reading}
    (h : ∀ r t, (goOn r).accept t = acceptExpr r t goOn (finish t)) (s : Expr.Reading)
    (ht : t.continuesExpr = false) (hne : Token.eof ≠ t) (hfinish : ∀ e, finish t e = .ok (next e))
    (hnext : ∀ e, (next e).Completable) : (goOn s).Completable := by
  obtain ⟨ts, s', e, heof, hreach, hend⟩ := s.exists_completion
  obtain ⟨us, q, heof', hreach'⟩ := hnext e
  have haccept : (goOn s').accept t = .ok (next e) := by
    rw [h, acceptExpr, hend t ht]
    exact hfinish e
  exact ⟨ts ++ t :: us, q, by simp [heof, hne, heof'], (Reaches.ofExpr h hreach).trans
    (.step haccept hreach')⟩

theorem completable_fieldExpr (name : String) (s : Expr.Reading) :
    (fieldExpr d fields name s).Completable :=
  .ofExpr (fun _ _ => rfl) s (t := .rightBrace) rfl (by simp) (fun _ => rfl)
    fun _ => ⟨[], _, by simp, .refl _⟩

theorem completable_fieldAssign (name : String) : (fieldAssign d fields name).Completable :=
  .step (t := .assign) rfl (by simp) (completable_fieldExpr d fields name .start)

theorem completable_fieldName : (fieldName d fields).Completable :=
  .step (t := .identifier "x") rfl (by simp) (completable_fieldAssign d fields "x")

theorem completable_selectBrace : (selectBrace d).Completable :=
  .step (t := .leftBrace) rfl (by simp) (completable_fieldName d [])

theorem completable_selectNew : (selectNew d).Completable :=
  .step (t := .keyword .new) rfl (by simp) (completable_selectBrace d)

theorem completable_clauses : (clauses d).Completable :=
  .step (t := .keyword .select) rfl (by simp) (completable_selectNew d)

theorem completable_joined (last : Item) : (joined d items last).Completable :=
  .step (t := .keyword .select) rfl (by simp) (completable_selectNew _)

theorem completable_joinAlias (e : Expr) : (joinAlias d items e).Completable :=
  .step (t := .identifier "x") rfl (by simp) (completable_joined d items _)

theorem completable_limitEnd (n : Nat) : (limitEnd d items n).Completable :=
  .step (t := .rightParen) rfl (by simp) (completable_clauses _)

theorem completable_sourceAlias (source : String) : (sourceAlias source).Completable :=
  .step (t := .identifier "x") rfl (by simp) (completable_clauses _)

theorem completable_sourceAs (source : String) : (sourceAs source).Completable :=
  .step (t := .keyword .as') rfl (by simp) (completable_sourceAlias source)

theorem completable_sourceName : sourceName.Completable :=
  .step (t := .identifier "x") rfl (by simp) (completable_sourceAs "x")

/-- A query can be completed from every place before its end. -/
theorem completable (h : ∀ q, r ≠ .done q) : r.Completable := by
  cases r with
  | start => exact .step (t := .keyword .from') rfl (by simp) completable_sourceName
  | sourceName => exact completable_sourceName
  | sourceAs source => exact completable_sourceAs source
  | sourceAlias source => exact completable_sourceAlias source
  | clauses d => exact completable_clauses d
  | joinExpr d items s =>
    exact .ofExpr (fun _ _ => rfl) s (t := .keyword .as') rfl (by simp) (fun _ => rfl)
      fun e => completable_joinAlias d items e
  | joinAlias d items e => exact completable_joinAlias d items e
  | joined d items last => exact completable_joined d items last
  | joinGuard d items last s =>
    exact .ofExpr (fun _ _ => rfl) s (t := .keyword .select) rfl (by simp) (fun _ => rfl)
      fun _ => completable_selectNew _
  | async d items => exact .step (t := .keyword .select) rfl (by simp) (completable_selectNew _)
  | limit d items =>
    have hpos : (0 : Int64) < 1 := by decide
    have hone : (limit d items).accept (.integer 1) =
        .ok (.limitEnd d items (1 : Int64).toInt.toNat) := by
      unfold accept
      exact if_pos hpos
    exact .step hone (by simp) (completable_limitEnd d items _)
  | limitEnd d items n => exact completable_limitEnd d items n
  | restriction d s =>
    exact .ofExpr (fun _ _ => rfl) s (t := .keyword .select) rfl (by simp) (fun _ => rfl)
      fun _ => completable_selectNew _
  | selectNew d => exact completable_selectNew d
  | selectBrace d => exact completable_selectBrace d
  | fieldName d fields => exact completable_fieldName d fields
  | fieldAssign d fields name => exact completable_fieldAssign d fields name
  | fieldExpr d fields name s => exact completable_fieldExpr d fields name s
  | closed q => exact ⟨[], q, by simp, .refl _⟩
  | done q => exact absurd rfl (h q)

/-! ## The end of the tokens -/

theorem acceptExpr_eof {s : Expr.Reading} {goOn : Expr.Reading → Reading}
    {finish : Expr → Except Complaint Reading} (h : acceptExpr s .eof goOn finish = .ok r') :
    ∃ e, finish e = .ok r' := by
  unfold acceptExpr at h
  split at h
  · cases h
  · next hmore => exact absurd hmore (Expr.Reading.accept_eof_ne_more _ _)
  · next e _ => exact ⟨e, h⟩

/-- The end of the tokens stands after the closing brace only. -/
theorem accept_eof (h : r.accept .eof = .ok r') : ∃ q, r' = .done q := by
  cases r with
  | closed q =>
    cases h
    exact ⟨q, rfl⟩
  | joinExpr d items s | joinGuard d items last s | restriction d s | fieldExpr d fields name s =>
    obtain ⟨e, he⟩ := acceptExpr_eof h
    cases he
  | _ => cases h

end Reading

/-! ## What reading comes to -/

variable {r r' : Reading} {lexemes front : List Lexeme}

/-- Where reading fails, a token is refused. -/
theorem reaches_of_read_error {e : ParseError} (h : read r lexemes = .error e) :
    ∃ front next back r', lexemes = front ++ next :: back ∧ next.position = e.position ∧
      Reading.Reaches r (front.map Lexeme.token) r' ∧ r'.accept next.token = .error e.complaint := by
  induction lexemes generalizing r with
  | nil => cases h
  | cons lexeme rest ih =>
    unfold read at h
    split at h
    · next hstep =>
      cases h
      exact ⟨[], lexeme, rest, r, rfl, rfl, .refl r, hstep⟩
    · next hstep =>
      obtain ⟨front, next, back, r', rfl, hposition, hreach, hrefused⟩ := ih h
      exact ⟨lexeme :: front, next, back, r', rfl, hposition, .step hstep hreach, hrefused⟩

/-- A list that ends in `Token.eof` is read to the end of a query, if it is read at all. -/
theorem exists_done_of_read {last : Nat} (h : read r (front ++ [⟨.eof, last⟩]) = .ok r') :
    ∃ q, r' = .done q := by
  induction front generalizing r with
  | nil =>
    rw [List.nil_append, read] at h
    split at h
    · cases h
    · next hstep =>
      cases h
      exact Reading.accept_eof hstep
  | cons lexeme rest ih =>
    rw [List.cons_append, read] at h
    split at h
    · cases h
    · exact ih h

/-! ## The first token that does not go on -/

/-- Tokens that have been read begin a query. -/
theorem exists_ofTokens_of_reaches (hfront : ∀ l ∈ front, l.token ≠ .eof)
    (h : Reading.Reaches .start (front.map Lexeme.token) r) :
    ∃ more last, (∀ l ∈ front ++ more, l.token ≠ .eof) ∧
      ∃ q, ofTokens (front ++ more ++ [⟨.eof, last⟩]) = .ok q := by
  have hread : read .start front = .ok r := by
    have hall := read_of_reaches h []
    rwa [List.append_nil] at hall
  have hopen : ∀ q, r ≠ .done q := by
    rintro q rfl
    obtain ⟨us, htokens, -⟩ := covers_of_read (show Reading.start.Covers [] from rfl) hread
    have heof : Token.eof ∈ front.map Lexeme.token := by
      rw [List.nil_append] at htokens
      rw [htokens]
      exact List.mem_append_right _ List.mem_cons_self
    obtain ⟨l, hl, hleof⟩ := List.mem_map.mp heof
    exact hfront l hl hleof
  obtain ⟨ts, q, heof, hreach⟩ := Reading.completable hopen
  have hall : Reading.Reaches .start ((front ++ Token.lexemes ts).map Lexeme.token) (.closed q) := by
    rw [List.map_append, Token.map_token_lexemes]
    exact h.trans hreach
  refine ⟨Token.lexemes ts, 0, fun l hl hleof => ?_, q, ?_⟩
  · rcases List.mem_append.mp hl with hl | hl
    · exact hfront l hl hleof
    · have hmem := List.mem_map_of_mem (f := Lexeme.token) hl
      rw [Token.map_token_lexemes, hleof] at hmem
      exact heof hmem
  · unfold ofTokens
    rw [read_of_reaches hall]
    rfl

/-- A list of tokens that is no query is complained about at the first token that no query goes on
with. -/
theorem firstOffence_of_ofTokens {last : Nat} (hfront : ∀ l ∈ front, l.token ≠ .eof)
    {e : ParseError} (h : ofTokens (front ++ [⟨.eof, last⟩]) = .error e) :
    FirstOffence (fun ls => ∃ q, ofTokens ls = .ok q) (front ++ [⟨.eof, last⟩]) e.position := by
  unfold ofTokens at h
  split at h
  · next hread =>
    cases h
    obtain ⟨front', next, back, r, hsplit, hposition, hreach, hrefused⟩ :=
      reaches_of_read_error hread
    have hstart : front' <+: front := by
      rcases List.append_eq_append_iff.mp hsplit with ⟨as, rfl, has⟩ | ⟨bs, rfl, -⟩
      · cases as with
        | nil => simp
        | cons a as => simp at has
      · exact List.prefix_append _ _
    have hfront' : ∀ l ∈ front', l.token ≠ .eof := fun l hl => hfront l (hstart.subset hl)
    refine ⟨front', next, back, hsplit, hposition, exists_ofTokens_of_reaches hfront' hreach, ?_⟩
    rintro more ⟨q, hq⟩
    unfold ofTokens at hq
    rw [read_of_reaches hreach, read, hrefused] at hq
    cases hq
  · cases h
  · next hnot hread =>
    obtain ⟨q, rfl⟩ := exists_done_of_read hread
    exact absurd rfl (hnot q)

end Query

/-! ## Texts -/

theorem position_le_of_tokenizeFrom {position : Nat} {cs : List Char} {lexemes : List Lexeme}
    (h : tokenizeFrom position cs = .ok lexemes) :
    ∀ l ∈ lexemes, l.position ≤ position + cs.length := by
  fun_induction tokenizeFrom position cs generalizing lexemes with
  | case1 position =>
    cases h
    simp
  | case2 position c cs hc ih =>
    intro l hl
    have hrest := ih h l hl
    rw [List.length_cons]
    omega
  | case3 => cases h
  | case4 position c cs hc t after hread taken =>
    rename_i ih
    cases hrest : tokenizeFrom (position + taken) after with
    | error e =>
      rw [hrest] at h
      cases h
    | ok lexemes' =>
      rw [hrest] at h
      cases h
      have hshorter := Token.read_length_lt hread
      intro l hl
      rcases List.mem_cons.mp hl with rfl | hl
      · exact Nat.le_add_right _ _
      · have hle := ih hrest l hl
        omega

/-- A text that has tokens but is no query is complained about at the first of its tokens with which
no query goes on, and at no place behind its end. So is a text that is no expression. -/
theorem firstOffence_of_parse {text : String} {lexemes : List Lexeme}
    (h : tokenize text = .ok lexemes) :
    (∀ e, Query.parse text = .error e → e.position ≤ text.length ∧
      FirstOffence (fun ls => ∃ q, Query.ofTokens ls = .ok q) lexemes e.position) ∧
    (∀ e, Expr.parse text = .error e → e.position ≤ text.length ∧
      FirstOffence (fun ls => ∃ e, Expr.ofTokens ls = .ok e) lexemes e.position) := by
  obtain ⟨front, last, rfl, hlexes⟩ := lexes_of_tokenizeFrom h
  have hfront : ∀ l ∈ front, l.token ≠ .eof :=
    fun l hl => hlexes.ne_eof _ (List.mem_map_of_mem hl)
  have hinside {accepted : List Lexeme → Prop} {position : Nat}
      (hfirst : FirstOffence accepted (front ++ [⟨.eof, last⟩]) position) :
      position ≤ text.length := by
    obtain ⟨before, lexeme, after, hsplit, rfl, -⟩ := hfirst
    have hmem : lexeme ∈ front ++ [⟨.eof, last⟩] := by
      rw [hsplit]
      exact List.mem_append_right _ List.mem_cons_self
    have hle := position_le_of_tokenizeFrom h lexeme hmem
    rwa [Nat.zero_add, String.length_toList] at hle
  constructor
  · intro e he
    unfold Query.parse at he
    rw [h] at he
    have hfirst := Query.firstOffence_of_ofTokens hfront he
    exact ⟨hinside hfirst, hfirst⟩
  · intro e he
    unfold Expr.parse at he
    rw [h] at he
    have hfirst := Expr.firstOffence_of_ofTokens he
    exact ⟨hinside hfirst, hfirst⟩

/-- A limit of zero is where the text stops being the beginning of a query; as an expression it is
none from its first word on. -/
theorem firstOffence_of_parse_limit :
    let text := "from xs as x join x as y async(0) select new \x7b y = y \x7d"
    let lexemes : List Lexeme := [⟨.keyword .from', 0⟩, ⟨.identifier "xs", 5⟩, ⟨.keyword .as', 8⟩,
      ⟨.identifier "x", 11⟩, ⟨.keyword .join, 13⟩, ⟨.identifier "x", 18⟩, ⟨.keyword .as', 20⟩,
      ⟨.identifier "y", 23⟩, ⟨.keyword .async, 25⟩, ⟨.leftParen, 30⟩, ⟨.integer 0, 31⟩,
      ⟨.rightParen, 32⟩, ⟨.keyword .select, 34⟩, ⟨.keyword .new, 41⟩, ⟨.leftBrace, 45⟩,
      ⟨.identifier "y", 47⟩, ⟨.assign, 49⟩, ⟨.identifier "y", 51⟩, ⟨.rightBrace, 53⟩, ⟨.eof, 54⟩]
    tokenize text = .ok lexemes ∧
      (Query.parse text = .error ⟨31, .expectedLimit (.integer 0)⟩ ∧ 31 ≤ text.length ∧
        FirstOffence (fun ls => ∃ q, Query.ofTokens ls = .ok q) lexemes 31) ∧
      (Expr.parse text = .error ⟨0, .strayInExpression (.keyword .from')⟩ ∧ 0 ≤ text.length ∧
        FirstOffence (fun ls => ∃ e, Expr.ofTokens ls = .ok e) lexemes 0) := by
  intro text lexemes
  have htokens : tokenize text = .ok lexemes := by decide +kernel
  have hquery : Query.parse text = .error ⟨31, .expectedLimit (.integer 0)⟩ := by
    unfold Query.parse
    rw [htokens]
    rfl
  have hexpr : Expr.parse text = .error ⟨0, .strayInExpression (.keyword .from')⟩ := by
    unfold Expr.parse
    rw [htokens]
    rfl
  obtain ⟨hq, he⟩ := firstOffence_of_parse htokens
  exact ⟨htokens, ⟨hquery, hq _ hquery⟩, hexpr, he _ hexpr⟩

end RowQuery
