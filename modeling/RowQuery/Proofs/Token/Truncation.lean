import RowQuery.Proofs.Token.Lexes

/-!
# One token of a text that is cut short

What a token looks ahead at is left out or taken whole, so a token that leaves the end of a text
alone is the same without that end (`Token.read_of_append`). This is the converse of
`Token.read_append`, and needs nothing to stand apart. What is left is always an end of the text
(`Token.read_suffix`), and so a token takes characters that are by themselves that token
(`Token.exists_taken`).
-/

set_option autoImplicit false

namespace RowQuery

/-! ## Runs of characters in a shorter text -/

theorem drop_length_takeWhile (p : Char → Bool) (cs : List Char) :
    cs.drop (cs.takeWhile p).length = cs.dropWhile p := by
  have hleft : ((cs.takeWhile p) ++ cs.dropWhile p).drop (cs.takeWhile p).length = cs.dropWhile p :=
    List.drop_left
  rwa [List.takeWhile_append_dropWhile] at hleft

/-- What is dropped of a longer text is dropped of the shorter one, if the rest is left. -/
theorem dropWhile_of_append {p : Char → Bool} {cs after rest : List Char}
    (h : (cs ++ rest).dropWhile p = after ++ rest) :
    cs.dropWhile p = after ∧ (cs ++ rest).takeWhile p = cs.takeWhile p := by
  have hdrop : cs.dropWhile p = after := by
    rw [List.dropWhile_append] at h
    split at h
    · next hempty =>
      -- nothing of the rest is dropped, or less than the rest would be left
      have hle := (List.dropWhile_sublist p (l := rest)).length_le
      rw [h, List.length_append] at hle
      have hafter : after = [] := List.eq_nil_of_length_eq_zero (by omega)
      rw [List.isEmpty_iff.mp hempty, hafter]
    · exact List.append_cancel_right h
  have hwhole : (cs ++ rest).takeWhile p ++ (after ++ rest) = cs.takeWhile p ++ (after ++ rest) :=
    calc (cs ++ rest).takeWhile p ++ (after ++ rest) = cs ++ rest := by
          rw [← h, List.takeWhile_append_dropWhile]
      _ = cs.takeWhile p ++ (after ++ rest) := by
          rw [← List.append_assoc, ← hdrop, List.takeWhile_append_dropWhile]
  exact ⟨hdrop, List.append_cancel_right hwhole⟩

namespace Token

variable {rest : List Char}

theorem wordHere?_of_append {cs : List Char} (h : wordHere? (cs ++ rest) = none) :
    wordHere? cs = none := by
  cases cs with
  | nil => rfl
  | cons c cs =>
    simp only [List.cons_append, wordHere?, ite_eq_right_iff, reduceCtorEq, imp_false] at h
    exact if_neg h

/-- A fraction is a point and the digits after it. -/
theorem fractionHere?_eq_some_iff {cs fraction : List Char} :
    fractionHere? cs = some fraction ↔
      ∃ c tail, cs = '.' :: c :: tail ∧ c.isDigit ∧
        (c :: tail).takeWhile Char.isDigit = fraction := by
  constructor
  · intro h
    unfold fractionHere? at h
    split at h
    · next c tail =>
      split at h
      · next hc => exact ⟨c, tail, rfl, hc, Option.some.inj h⟩
      · cases h
    · cases h
  · rintro ⟨c, tail, rfl, hc, rfl⟩
    exact if_pos hc

theorem fractionHere?_of_append_eq_none {cs : List Char}
    (h : fractionHere? (cs ++ rest) = none) : fractionHere? cs = none := by
  rw [Option.eq_none_iff_forall_ne_some] at h ⊢
  intro fraction hfraction
  obtain ⟨c, tail, rfl, hc, -⟩ := fractionHere?_eq_some_iff.mp hfraction
  exact h _ (fractionHere?_eq_some_iff.mpr ⟨c, tail ++ rest, rfl, hc, rfl⟩)

theorem fractionHere?_of_append {cs fraction after : List Char}
    (h : fractionHere? (cs ++ rest) = some fraction)
    (hafter : (cs ++ rest).drop (fraction.length + 1) = after ++ rest) :
    fractionHere? cs = some fraction ∧ cs.drop (fraction.length + 1) = after := by
  obtain ⟨c, tail, hcs, hc, rfl⟩ := fractionHere?_eq_some_iff.mp h
  rw [hcs, List.drop_succ_cons, drop_length_takeWhile] at hafter
  -- the point and a digit are in front of what is left
  have hle := (List.dropWhile_sublist Char.isDigit (l := tail)).length_le
  rw [← List.dropWhile_cons_of_pos hc, hafter, List.length_append] at hle
  have htotal := congrArg List.length hcs
  simp only [List.length_append, List.length_cons] at htotal
  match cs, hcs with
  | [], _ => simp only [List.length_nil] at htotal; omega
  | [_], _ => simp only [List.length_cons, List.length_nil] at htotal; omega
  | d :: e :: cs, hcs =>
    simp only [List.cons_append, List.cons.injEq] at hcs
    obtain ⟨rfl, rfl, rfl⟩ := hcs
    rw [← List.cons_append] at hafter
    obtain ⟨hleft, htake⟩ := dropWhile_of_append hafter
    rw [← List.cons_append, htake]
    refine ⟨fractionHere?_eq_some_iff.mpr ⟨e, cs, rfl, hc, rfl⟩, ?_⟩
    rw [List.drop_succ_cons, drop_length_takeWhile, hleft]

/-! ## One token in a shorter text -/

theorem readContent?_of_append {q : Char} {cs after : List Char} : ∀ {s : List Char},
    readContent? q (cs ++ rest) = some (s, after ++ rest) → readContent? q cs = some (s, after) := by
  fun_induction readContent? q cs with
  | case1 =>
    intro s h
    have hlt := readContent?_length_lt h
    rw [List.nil_append, List.length_append] at hlt
    omega
  | case2 cs =>
    intro s h
    rw [List.cons_append, readContent?_mark] at h
    obtain ⟨rfl, hafter⟩ := Prod.mk.inj (Option.some.inj h)
    rw [List.append_cancel_right hafter]
  | case3 hq =>
    intro s h
    cases rest with
    | nil =>
      rw [List.append_nil, readContent?.eq_def] at h
      simp only [if_neg hq, if_true] at h
      cases h
    | cons e rest =>
      rw [List.cons_append, List.nil_append, readContent?_escape hq] at h
      obtain ⟨⟨s', after'⟩, hs, he⟩ := Option.map_eq_some_iff.mp h
      obtain ⟨-, rfl⟩ := Prod.mk.inj he
      have hlt := readContent?_length_lt hs
      rw [List.length_append, List.length_cons] at hlt
      omega
  | case4 e cs hq ih =>
    intro s h
    rw [List.cons_append, List.cons_append, readContent?_escape hq] at h
    obtain ⟨⟨s', after'⟩, hs, he⟩ := Option.map_eq_some_iff.mp h
    obtain ⟨rfl, rfl⟩ := Prod.mk.inj he
    rw [ih hs]
    rfl
  | case5 c cs hq hb ih =>
    intro s h
    rw [List.cons_append, readContent?_char hq hb] at h
    obtain ⟨⟨s', after'⟩, hs, he⟩ := Option.map_eq_some_iff.mp h
    obtain ⟨rfl, rfl⟩ := Prod.mk.inj he
    rw [ih hs]
    rfl

theorem readString_of_append {q : Char} {cs after : List Char} {t : Token}
    (h : readString q (cs ++ rest) = .ok (t, after ++ rest)) : readString q cs = .ok (t, after) := by
  unfold readString at h
  split at h
  · cases h
  · next content back hc =>
    split at h
    · cases h
    · next hw =>
      obtain ⟨rfl, rfl⟩ := Prod.mk.inj (Except.ok.inj h)
      unfold readString
      rw [readContent?_of_append hc]
      dsimp only
      rw [wordHere?_of_append hw]

theorem readNumber_of_append {negative : Bool} {cs after : List Char} {t : Token}
    (h : readNumber negative (cs ++ rest) = .ok (t, after ++ rest)) :
    readNumber negative cs = .ok (t, after) := by
  unfold readNumber at h ⊢
  dsimp only at h ⊢
  split at h
  · next fraction hf =>
    split at h
    · cases h
    · next hw =>
      obtain ⟨ht, hafter⟩ := Prod.mk.inj (Except.ok.inj h)
      obtain ⟨mid, hmid⟩ : ∃ mid, (cs ++ rest).dropWhile Char.isDigit = mid ++ rest := by
        obtain ⟨front, hfront⟩ := (List.suffix_append after rest).trans
          (hafter ▸ List.drop_suffix (fraction.length + 1) _)
        exact ⟨front, hfront.symm⟩
      obtain ⟨hdrop, htake⟩ := dropWhile_of_append hmid
      rw [hmid] at hf hafter
      obtain ⟨hf', hafter'⟩ := fractionHere?_of_append hf hafter
      rw [hmid, hafter] at hw
      rw [hdrop, hf']
      dsimp only
      rw [hafter', wordHere?_of_append hw, ← ht, htake]
  · next hf =>
    split at h
    · cases h
    · next hw =>
      cases hi : ofInteger negative ((cs ++ rest).takeWhile Char.isDigit) with
      | error c => rw [hi] at h; cases h
      | ok t' =>
        rw [hi] at h
        obtain ⟨rfl, hafter⟩ := Prod.mk.inj (Except.ok.inj h)
        obtain ⟨hdrop, htake⟩ := dropWhile_of_append hafter
        rw [hafter] at hf hw
        rw [hdrop, fractionHere?_of_append_eq_none hf]
        dsimp only
        rw [wordHere?_of_append hw, ← htake, hi]
        rfl

/-- A token that leaves the end of a text alone is read so without it. -/
theorem read_of_append {c : Char} {cs after : List Char} {t : Token}
    (h : read c (cs ++ rest) = .ok (t, after ++ rest)) : read c cs = .ok (t, after) := by
  have hlength := read_length_lt h
  unfold read at h ⊢
  split at h
  · next hq =>
    rw [if_pos hq]
    exact readString_of_append h
  · next hq =>
    rw [if_neg hq]
    split at h
    · next hd =>
      rw [if_pos hd]
      rw [← List.cons_append] at h
      exact readNumber_of_append h
    · next hd =>
      rw [if_neg hd]
      split at h
      · next hw =>
        obtain ⟨ht, hafter⟩ := Prod.mk.inj (Except.ok.inj h)
        obtain ⟨hdrop, htake⟩ := dropWhile_of_append hafter
        rw [if_pos hw, hdrop, ← ht, htake]
      · next hw =>
        rw [if_neg hw]
        cases cs with
        | nil =>
          obtain rfl : after = [] := by
            simp only [List.nil_append, List.length_append, List.length_cons] at hlength
            exact List.eq_nil_of_length_eq_zero (by omega)
          cases rest with
          | nil => exact h
          | cons d tail =>
            -- the mark that would have lengthened the token is left
            dsimp only [List.nil_append] at h
            split at h
            case h_1 =>
              split at h
              · next heq hdigit =>
                obtain ⟨rfl, rfl⟩ := List.cons.inj heq
                exact absurd (readNumber_length_lt hdigit h) (Nat.lt_irrefl _)
              · cases h
                rfl
            all_goals simp_all
        | cons d cs =>
          have hcancel : d :: (cs ++ rest) = after ++ rest ↔ d :: cs = after := by
            rw [← List.cons_append, List.append_cancel_right_eq]
          rw [List.cons_append] at h
          split at h
          case h_1 heq =>
            obtain ⟨rfl, rfl⟩ := List.cons.inj heq
            split at h
            · next hdigit =>
              rw [← List.cons_append] at h
              exact (if_pos hdigit).trans (readNumber_of_append h)
            · next hdigit =>
              obtain ⟨rfl, hafter⟩ := Prod.mk.inj (Except.ok.inj h)
              exact (if_neg hdigit).trans (by rw [hcancel.mp hafter])
          case h_2 heq => cases heq
          all_goals simp only [Except.ok.injEq, Prod.mk.injEq, reduceCtorEq, hcancel] at h
          all_goals obtain ⟨rfl, rfl⟩ := h
          all_goals clear hcancel hlength
          all_goals simp_all

/-! ## What a token takes -/

theorem readContent?_suffix {q : Char} {cs s after : List Char}
    (h : readContent? q cs = some (s, after)) : after <:+ cs := by
  fun_induction readContent? q cs generalizing s with
  | case1 => cases h
  | case2 cs => cases h; exact List.suffix_cons q _
  | case3 => cases h
  | case4 e cs hq ih =>
    obtain ⟨⟨s', after'⟩, hs, he⟩ := Option.map_eq_some_iff.mp h
    obtain ⟨-, rfl⟩ := Prod.mk.inj he
    exact (ih hs).trans ((List.suffix_cons e cs).trans (List.suffix_cons _ _))
  | case5 c cs hq hb ih =>
    obtain ⟨⟨s', after'⟩, hs, he⟩ := Option.map_eq_some_iff.mp h
    obtain ⟨-, rfl⟩ := Prod.mk.inj he
    exact (ih hs).trans (List.suffix_cons c cs)

theorem readString_suffix {q : Char} {cs after : List Char} {t : Token}
    (h : readString q cs = .ok (t, after)) : after <:+ cs := by
  unfold readString at h
  split at h
  · cases h
  · next hc =>
    split at h
    · cases h
    · obtain ⟨-, rfl⟩ := Prod.mk.inj (Except.ok.inj h)
      exact readContent?_suffix hc

theorem readNumber_suffix {negative : Bool} {cs after : List Char} {t : Token}
    (h : readNumber negative cs = .ok (t, after)) : after <:+ cs := by
  unfold readNumber at h
  dsimp only at h
  split at h
  · split at h
    · cases h
    · obtain ⟨-, rfl⟩ := Prod.mk.inj (Except.ok.inj h)
      exact (List.drop_suffix _ _).trans (List.dropWhile_suffix _)
  · split at h
    · cases h
    · cases hi : ofInteger negative (cs.takeWhile Char.isDigit) with
      | error c => rw [hi] at h; cases h
      | ok t' =>
        rw [hi] at h
        obtain ⟨-, rfl⟩ := Prod.mk.inj (Except.ok.inj h)
        exact List.dropWhile_suffix _

/-- A token leaves an end of the text behind its first character. -/
theorem read_suffix {c : Char} {cs after : List Char} {t : Token}
    (h : read c cs = .ok (t, after)) : after <:+ cs := by
  have hlength := read_length_lt h
  unfold read at h
  split at h
  · exact readString_suffix h
  · split at h
    · rcases List.suffix_cons_iff.mp (readNumber_suffix h) with rfl | hsuffix
      · exact absurd hlength (Nat.lt_irrefl _)
      · exact hsuffix
    · split at h
      · obtain ⟨-, rfl⟩ := Prod.mk.inj (Except.ok.inj h)
        exact List.dropWhile_suffix _
      · clear hlength
        split at h
        case h_1 d tail =>
          split at h
          · exact readNumber_suffix h
          · obtain ⟨-, rfl⟩ := Prod.mk.inj (Except.ok.inj h)
            exact List.suffix_rfl
        all_goals simp only [Except.ok.injEq, Prod.mk.injEq, reduceCtorEq] at h
        all_goals obtain ⟨-, rfl⟩ := h
        all_goals first | exact List.suffix_rfl | exact List.suffix_cons _ _

/-- The characters a token takes are the same in every text that goes on behind them. -/
theorem exists_taken {c : Char} {cs after : List Char} {t : Token}
    (h : read c cs = .ok (t, after)) :
    ∃ taken, cs = taken ++ after ∧
      ∀ front back, after = front ++ back → read c (taken ++ front) = .ok (t, front) := by
  obtain ⟨taken, rfl⟩ := read_suffix h
  refine ⟨taken, rfl, ?_⟩
  rintro front back rfl
  rw [← List.append_assoc] at h
  exact read_of_append h

end Token

end RowQuery
