import Mathlib.Order.Basic
import RowQuery.Proofs.Token.Truncation

/-!
# The characters of the tokens partition the text

A token takes the characters from its position up to where reading goes on (`Span`). `Tiles` lays the
spans of a text one behind the other, and `Partition` is what that comes to: they do not overlap,
between them the text is blank, and the characters of each are by themselves its token. Where a text
is refused, the spans before the place of the error are those of the text before it
(`tiles_of_tokenizeFrom_error`).
-/

set_option autoImplicit false

namespace RowQuery

/-! ## Spans laid over a text -/

/-- A token of a text and the characters it takes: those from `start` up to `stop`. -/
structure Span where
  token : Token
  start : Nat
  stop : Nat
deriving DecidableEq

namespace Span

def lexeme (s : Span) : Lexeme := ⟨s.token, s.start⟩

/-- The characters of a span. -/
def characters (text : List Char) (s : Span) : List Char := text.extract s.start s.stop

/-- The token of the span is what is read at its start, and reading goes on at its stop. -/
def ReadIn (text : List Char) (s : Span) : Prop :=
  ∃ c taken, isBlank c = false ∧ s.stop = s.start + (taken.length + 1) ∧
    text.drop s.start = c :: (taken ++ text.drop s.stop) ∧
    Token.read c (taken ++ text.drop s.stop) = .ok (s.token, text.drop s.stop)

end Span

/-- The spans of the tokens of a text, one behind the other from a position on. -/
inductive Tiles : Nat → List Char → List Span → Prop where
  | nil {position : Nat} : Tiles position [] []
  | blank {position : Nat} {c : Char} {cs : List Char} {spans : List Span} (hc : isBlank c)
      (rest : Tiles (position + 1) cs spans) : Tiles position (c :: cs) spans
  | token {position : Nat} {c : Char} {taken after : List Char} {t : Token} {spans : List Span}
      (hc : isBlank c = false) (h : Token.read c (taken ++ after) = .ok (t, after))
      (rest : Tiles (position + (taken.length + 1)) after spans) :
      Tiles position (c :: (taken ++ after)) (⟨t, position, position + (taken.length + 1)⟩ :: spans)

namespace Tiles

variable {position : Nat} {cs : List Char} {spans : List Span}

/-- The lexemes of the spans come before those of whatever stands apart from the text. -/
theorem tokenizeFrom_append (h : Tiles position cs spans) {rest : List Char} (hr : Apart rest) :
    RowQuery.tokenizeFrom position (cs ++ rest) =
      (RowQuery.tokenizeFrom (position + cs.length) rest).map (spans.map Span.lexeme ++ ·) := by
  induction h with
  | nil => exact (congrFun Except.map_id _).symm
  | @blank position c cs spans hc _ ih =>
    rw [List.cons_append, tokenizeFrom_blank hc, ih, List.length_cons, Nat.add_right_comm,
      Nat.add_assoc]
  | @token position c taken after t spans hc hread _ ih =>
    have hread' := Token.read_append hr hread
    have htaken : (c :: (taken ++ after ++ rest)).length - (after ++ rest).length =
        taken.length + 1 := by
      simp only [List.length_cons, List.length_append]; omega
    have hplace : position + (taken.length + 1) + after.length =
        position + (c :: (taken ++ after)).length := by
      simp only [List.length_cons, List.length_append]; omega
    rw [List.cons_append, tokenizeFrom_token hc hread', htaken, ih, hplace]
    cases RowQuery.tokenizeFrom (position + (c :: (taken ++ after)).length) rest <;> rfl

theorem tokenizeFrom (h : Tiles position cs spans) :
    RowQuery.tokenizeFrom position cs =
      .ok (spans.map Span.lexeme ++ [⟨.eof, position + cs.length⟩]) := by
  have hwhole := h.tokenizeFrom_append Apart.nil
  rw [List.append_nil] at hwhole
  rw [hwhole, tokenizeFrom_nil]
  rfl

theorem lexes (h : Tiles position cs spans) : Lexes cs (spans.map Span.token) := by
  induction h with
  | nil => exact .nil
  | blank hc _ ih => exact .blank hc ih
  | token hc hread _ ih => exact .token hc hread ih

theorem start_le (h : Tiles position cs spans) : ∀ s ∈ spans, position ≤ s.start := by
  induction h with
  | nil => simp
  | blank _ _ ih => exact fun s hs => Nat.le_of_succ_le (ih s hs)
  | token _ _ _ ih =>
    intro s hs
    rcases List.mem_cons.mp hs with rfl | hs
    · exact Nat.le_refl _
    · exact Nat.le_trans (Nat.le_add_right _ _) (ih s hs)

theorem lt_stop (h : Tiles position cs spans) : ∀ s ∈ spans, position < s.stop := by
  induction h with
  | nil => simp
  | blank _ _ ih => exact fun s hs => Nat.lt_of_succ_lt (ih s hs)
  | token _ _ _ ih =>
    intro s hs
    rcases List.mem_cons.mp hs with rfl | hs
    · exact Nat.lt_add_of_pos_right (Nat.succ_pos _)
    · exact Nat.lt_of_le_of_lt (Nat.le_add_right _ _) (ih s hs)

theorem apart (h : Tiles position cs spans) : spans.Pairwise (·.stop ≤ ·.start) := by
  induction h with
  | nil => exact .nil
  | blank _ _ ih => exact ih
  | token _ _ rest ih => exact .cons rest.start_le ih

/-- A character that no span holds is blank. -/
theorem isBlank_of_outside (h : Tiles position cs spans) {i : Nat} {c : Char}
    (hc : cs[i]? = some c)
    (houtside : ∀ s ∈ spans, ¬ (s.start ≤ position + i ∧ position + i < s.stop)) :
    isBlank c := by
  induction h generalizing i with
  | nil => cases hc
  | @blank position d cs spans hd _ ih =>
    cases i with
    | zero => exact Option.some.inj hc ▸ hd
    | succ i =>
      refine ih hc fun s hs => ?_
      rw [Nat.add_assoc, Nat.add_comm 1]
      exact houtside s hs
  | @token position d taken after t spans hd _ _ ih =>
    have hbeyond : taken.length + 1 ≤ i := by
      have hhead := houtside _ (List.mem_cons_self ..)
      dsimp only at hhead
      omega
    obtain ⟨j, rfl⟩ := Nat.exists_eq_add_of_le hbeyond
    rw [Nat.add_right_comm, List.getElem?_cons_succ,
      List.getElem?_append_right (Nat.le_add_right _ _), Nat.add_sub_cancel_left] at hc
    refine ih hc fun s hs => ?_
    rw [Nat.add_assoc]
    exact houtside s (List.mem_cons_of_mem _ hs)

theorem readIn (h : Tiles position cs spans) {text : List Char} (htext : text.drop position = cs) :
    ∀ s ∈ spans, s.ReadIn text := by
  induction h with
  | nil => simp
  | blank _ _ ih => exact ih (by rw [← List.tail_drop, htext, List.tail_cons])
  | @token position c taken after t spans hc hread _ ih =>
    have hafter : text.drop (position + (taken.length + 1)) = after := by
      rw [← List.drop_drop, htext, List.drop_succ_cons, List.drop_left]
    intro s hs
    rcases List.mem_cons.mp hs with rfl | hs
    · exact ⟨c, taken, hc, rfl, by rw [htext, hafter], by rw [hafter]; exact hread⟩
    · exact ih hafter s hs

end Tiles

/-- Characters that are one token have no other. -/
theorem tokenize_of_read {c : Char} {cs : List Char} {t : Token} (hc : isBlank c = false)
    (h : Token.read c cs = .ok (t, [])) :
    tokenize (String.ofList (c :: cs)) = .ok [⟨t, 0⟩, ⟨.eof, cs.length + 1⟩] := by
  have htiles : Tiles 0 (c :: (cs ++ [])) [⟨t, 0, 0 + (cs.length + 1)⟩] :=
    .token hc ((List.append_nil cs).symm ▸ h) .nil
  rw [List.append_nil] at htiles
  rw [tokenize, String.toList_ofList, htiles.tokenizeFrom, Nat.zero_add (c :: cs).length]
  rfl

/-- What is tokenized is laid out in spans. -/
theorem tiles_of_tokenizeFrom {position : Nat} {cs : List Char} {lexemes : List Lexeme}
    (h : tokenizeFrom position cs = .ok lexemes) : ∃ spans, Tiles position cs spans := by
  fun_induction tokenizeFrom position cs generalizing lexemes with
  | case1 position => exact ⟨[], .nil⟩
  | case2 position c cs hc ih =>
    obtain ⟨spans, hspans⟩ := ih h
    exact ⟨spans, .blank hc hspans⟩
  | case3 => cases h
  | case4 position c cs hc t after hread taken =>
    rename_i ih
    cases hrest : tokenizeFrom (position + taken) after with
    | error e => rw [hrest] at h; cases h
    | ok lexemes' =>
      obtain ⟨spans, hspans⟩ := ih hrest
      obtain ⟨front, rfl, -⟩ := Token.exists_taken hread
      have htaken : taken = front.length + 1 := by
        simp only [taken, List.length_cons, List.length_append]; omega
      rw [htaken] at hspans
      exact ⟨_, .token (Bool.eq_false_iff.mpr hc) hread hspans⟩

/-- Up to the place of an error the text is laid out in spans of its own. -/
theorem tiles_of_tokenizeFrom_error {position : Nat} {cs : List Char} {e : ParseError}
    (h : tokenizeFrom position cs = .error e) :
    ∃ front c rest spans, cs = front ++ c :: rest ∧ e.position = position + front.length ∧
      isBlank c = false ∧ Tiles position front spans := by
  fun_induction tokenizeFrom position cs with
  | case1 => cases h
  | case2 position c cs hc ih =>
    obtain ⟨front, d, rest, spans, rfl, hposition, hd, hspans⟩ := ih h
    refine ⟨c :: front, d, rest, spans, rfl, ?_, hd, .blank hc hspans⟩
    rw [hposition, List.length_cons]
    omega
  | case3 position c cs hc complaint =>
    cases h
    exact ⟨[], c, cs, [], rfl, rfl, Bool.eq_false_iff.mpr hc, .nil⟩
  | case4 position c cs hc t after hread taken =>
    rename_i ih
    cases hrest : tokenizeFrom (position + taken) after with
    | ok lexemes => rw [hrest] at h; cases h
    | error e' =>
      rw [hrest] at h
      cases h
      obtain ⟨front, d, rest, spans, hafter, hposition, hd, hspans⟩ := ih hrest
      obtain ⟨chars, rfl, hread'⟩ := Token.exists_taken hread
      have htaken : taken = chars.length + 1 := by
        simp only [taken, List.length_cons, List.length_append]; omega
      rw [htaken] at hspans hposition
      refine ⟨c :: (chars ++ front), d, rest, _, by rw [hafter]; simp, ?_, hd,
        .token (Bool.eq_false_iff.mpr hc) (hread' front _ hafter) hspans⟩
      rw [hposition, List.length_cons, List.length_append]
      omega

/-! ## The spans partition the text -/

/-- Spans that partition the characters of a text: the first ones to be read, without overlap, with
blanks between them. -/
structure Partition (text : List Char) (spans : List Span) : Prop where
  within : ∀ s ∈ spans, s.start < s.stop ∧ s.stop ≤ text.length
  apart : spans.Pairwise (·.stop ≤ ·.start)
  blank : ∀ i c, text[i]? = some c → (∀ s ∈ spans, ¬ (s.start ≤ i ∧ i < s.stop)) → isBlank c
  read : ∀ s ∈ spans, ∃ c cs, text.drop s.start = c :: cs ∧
    Token.read c cs = .ok (s.token, text.drop s.stop)
  alone : ∀ s ∈ spans, tokenize (String.ofList (s.characters text)) =
    .ok [⟨s.token, 0⟩, ⟨.eof, s.stop - s.start⟩]

namespace Span

variable {text : List Char} {s : Span}

theorem ReadIn.within (h : s.ReadIn text) : s.start < s.stop ∧ s.stop ≤ text.length := by
  obtain ⟨c, taken, -, hstop, htext, -⟩ := h
  have hlength := congrArg List.length htext
  simp only [List.length_drop, List.length_cons, List.length_append] at hlength
  omega

/-- The characters of a span are its token, and no other. -/
theorem ReadIn.alone (h : s.ReadIn text) : tokenize (String.ofList (s.characters text)) =
    .ok [⟨s.token, 0⟩, ⟨.eof, s.stop - s.start⟩] := by
  obtain ⟨c, taken, hc, hstop, htext, hread⟩ := h
  have hcharacters : s.characters text = c :: taken := by
    rw [characters, List.extract_eq_take_drop, htext, hstop, Nat.add_sub_cancel_left,
      List.take_succ_cons, List.take_left]
  have hread' : Token.read c taken = .ok (s.token, []) := Token.read_of_append hread
  rw [hcharacters, tokenize_of_read hc hread', hstop, Nat.add_sub_cancel_left]

end Span

theorem Tiles.partition {text : List Char} {spans : List Span} (h : Tiles 0 text spans) :
    Partition text spans where
  within s hs := (h.readIn rfl s hs).within
  apart := h.apart
  blank i c hc houtside := h.isBlank_of_outside hc (by simpa only [Nat.zero_add] using houtside)
  read s hs := by
    obtain ⟨c, taken, -, -, htext, hread⟩ := h.readIn rfl s hs
    exact ⟨c, _, htext, hread⟩
  alone s hs := (h.readIn rfl s hs).alone

namespace Partition

variable {text : List Char} {spans : List Span}

theorem pairwise_start_lt (h : Partition text spans) : spans.Pairwise (·.start < ·.start) :=
  h.apart.imp_of_mem fun hs _ hapart => Nat.lt_of_lt_of_le (h.within _ hs).1 hapart

/-- The positions grow from one token to the next, and the end of the text is behind them all. -/
theorem pairwise_position_lt (h : Partition text spans) :
    (spans.map Span.lexeme ++ [(⟨.eof, text.length⟩ : Lexeme)]).Pairwise
      (·.position < ·.position) := by
  refine List.pairwise_append.mpr ⟨?_, List.pairwise_singleton _ _, ?_⟩
  · exact List.pairwise_map.mpr h.pairwise_start_lt
  · intro lexeme hlexeme last hlast
    obtain ⟨s, hs, rfl⟩ := List.mem_map.mp hlexeme
    obtain rfl := List.mem_singleton.mp hlast
    have hwithin := h.within s hs
    exact Nat.lt_of_lt_of_le hwithin.1 hwithin.2

end Partition

/-- The lexemes of a text are those of the spans that partition it, and the end. -/
theorem exists_tiles_of_tokenize {text : String} {lexemes : List Lexeme}
    (h : tokenize text = .ok lexemes) :
    ∃ spans, Tiles 0 text.toList spans ∧
      lexemes = spans.map Span.lexeme ++ [⟨.eof, text.length⟩] := by
  obtain ⟨spans, hspans⟩ := tiles_of_tokenizeFrom h
  have hlexemes := hspans.tokenizeFrom
  rw [Nat.zero_add, String.length_toList] at hlexemes
  exact ⟨spans, hspans, Except.ok.inj (h.symm.trans hlexemes)⟩

/-- The positions of the tokens are strictly increasing, one `Token.eof` stands last at the length of
the text, and the spans of the others partition the characters of the text. Where there is no token,
the character is no blank, and the text before it has tokens of its own. -/
theorem tokenize_partition (text : String) :
    (∀ lexemes, tokenize text = .ok lexemes →
      lexemes.Pairwise (·.position < ·.position) ∧
      ∃ spans, lexemes = spans.map Span.lexeme ++ [⟨.eof, text.length⟩] ∧
        (∀ s ∈ spans, s.token ≠ .eof) ∧ Partition text.toList spans) ∧
    (∀ e, tokenize text = .error e →
      (∃ c, text.toList[e.position]? = some c ∧ isBlank c = false) ∧
      ∃ lexemes, tokenize (String.ofList (text.toList.take e.position)) = .ok lexemes) := by
  constructor
  · intro lexemes h
    obtain ⟨spans, hspans, rfl⟩ := exists_tiles_of_tokenize h
    refine ⟨?_, spans, rfl, ?_, hspans.partition⟩
    · rw [← String.length_toList]
      exact hspans.partition.pairwise_position_lt
    · intro s hs
      exact hspans.lexes.ne_eof s.token (List.mem_map_of_mem hs)
  · intro e h
    obtain ⟨front, c, rest, spans, htext, hposition, hc, hspans⟩ := tiles_of_tokenizeFrom_error h
    rw [htext, hposition, Nat.zero_add]
    refine ⟨⟨c, by rw [List.getElem?_append_right (Nat.le_refl _), Nat.sub_self]; rfl, hc⟩, ?_⟩
    rw [List.take_left, tokenize, String.toList_ofList]
    exact ⟨_, hspans.tokenizeFrom⟩

/-- Operators of one and two characters next to each other, and a string that is never closed. -/
theorem tokenize_partition_operators :
    (∃ spans, spans.map Span.lexeme = [⟨.identifier "a", 0⟩, ⟨.dotQuestion, 1⟩, ⟨.identifier "b", 3⟩,
          ⟨.comparison .lessEqual, 5⟩, ⟨.integer (-1), 7⟩, ⟨.minus, 9⟩] ∧
        Partition "a.?b <=-1-".toList spans) ∧
      tokenize "a 'b" = .error ⟨2, .unterminatedString⟩ ∧
      ∃ lexemes, tokenize (String.ofList ("a 'b".toList.take 2)) = .ok lexemes := by
  have htokens : tokenize "a.?b <=-1-" = .ok ([⟨.identifier "a", 0⟩, ⟨.dotQuestion, 1⟩,
      ⟨.identifier "b", 3⟩, ⟨.comparison .lessEqual, 5⟩, ⟨.integer (-1), 7⟩, ⟨.minus, 9⟩] ++
      [⟨.eof, 10⟩]) := by decide +kernel
  have herror : tokenize "a 'b" = .error ⟨2, .unterminatedString⟩ := by decide +kernel
  obtain ⟨-, spans, hlexemes, -, hpartition⟩ := (tokenize_partition "a.?b <=-1-").1 _ htokens
  refine ⟨⟨spans, ?_, hpartition⟩, herror, ((tokenize_partition "a 'b").2 _ herror).2⟩
  exact (List.append_inj' hlexemes rfl).1.symm

end RowQuery
