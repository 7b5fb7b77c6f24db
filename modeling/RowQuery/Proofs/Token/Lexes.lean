import RowQuery.Token.Lexer

/-!
# Texts that stand apart are read one after another

Each token is the longest one at its place, so what follows a text can change the tokens of the
text. It cannot when it stands *apart*: when it begins with no character that a token before it
could take in. Then a text and what follows have the tokens of the one and after them those of the
other (`Lexes.append`), and that is all the printer and the clauses of a query need to know of the
lexer.

What one token can be, and what is left behind it, is said once in `Token.Taken`. `Lexes` leaves the
positions out; `Lexes.tokenizeFrom` and `lexes_of_tokenizeFrom` put them back.
-/

set_option autoImplicit false

namespace RowQuery

/-! ## Classes of characters -/

theorem isWordPart_of_isWordStart {c : Char} (h : isWordStart c) : isWordPart c := by
  simp only [isWordStart, isWordPart, Bool.or_eq_true] at *
  exact h.imp .inl id

theorem isWordPart_of_isDigit {c : Char} (h : c.isDigit) : isWordPart c := by
  have hc : c.val < 128 := by
    simp only [Char.isDigit, Bool.and_eq_true, decide_eq_true_eq] at h
    exact UInt32.lt_of_le_of_lt h.2 (by decide)
  simp [isWordPart, isNumeral, hc, h]

/-- The code points of `White_Space`, one by one. -/
def Blank.codes : List Nat :=
  [9, 10, 11, 12, 13, 0x20, 0x85, 0xA0, 0x1680, 0x2000, 0x2001, 0x2002, 0x2003, 0x2004, 0x2005,
    0x2006, 0x2007, 0x2008, 0x2009, 0x200A, 0x2028, 0x2029, 0x202F, 0x205F, 0x3000]

theorem toNat_mem_codes {c : Char} (h : isBlank c) : c.toNat ∈ Blank.codes := by
  simp only [isBlank, inRanges, Blank.ranges, List.any_cons, List.any_nil, Bool.or_false,
    Bool.or_eq_true, Bool.and_eq_true, decide_eq_true_eq] at h
  simp only [Blank.codes, List.mem_cons, List.not_mem_nil, or_false]
  omega

/-- What holds of the blanks one by one holds of every blank. -/
theorem forall_isBlank {p : Char → Prop} (h : ∀ n ∈ Blank.codes, p (Char.ofNat n)) {c : Char}
    (hc : isBlank c) : p c := by
  rw [← Char.ofNat_toNat c]
  exact h _ (toNat_mem_codes hc)

theorem isWordPart_of_isBlank {c : Char} (h : isBlank c) : isWordPart c = false :=
  forall_isBlank (p := fun c => isWordPart c = false) (by decide +kernel) h

/-- What holds of the ten digits one by one holds of every digit. -/
theorem forall_isDigit {p : Char → Prop} (h : ∀ n ∈ List.range' 48 10, p (Char.ofNat n)) {c : Char}
    (hc : c.isDigit) : p c := by
  rw [← Char.ofNat_toNat c]
  simp only [Char.isDigit, Bool.and_eq_true, decide_eq_true_eq] at hc
  have hlow : 48 ≤ c.toNat := hc.1
  have hhigh : c.toNat ≤ 57 := hc.2
  exact h _ (by simp only [List.mem_range'_1]; omega)

/-- A word does not begin with a digit. -/
theorem isWordStart_of_isDigit {c : Char} (h : c.isDigit) : isWordStart c = false :=
  forall_isDigit (p := fun c => isWordStart c = false) (by decide) h

/-! ## Standing apart -/

/-- A fraction begins with a point. -/
theorem Token.fractionHere?_of_ne {c : Char} (h : c ≠ '.') (cs : List Char) :
    Token.fractionHere? (c :: cs) = none := by
  unfold Token.fractionHere?
  split
  · next hc => exact absurd (List.cons.inj hc).1 h
  · rfl

/-- No token before these characters could take them in. -/
structure Apart (rest : List Char) : Prop where
  head : ∀ c ∈ rest.head?, isWordPart c = false ∧ c ≠ '=' ∧ c ≠ '?'
  noFraction : Token.fractionHere? rest = none

namespace Apart

theorem nil : Apart [] := ⟨by simp, rfl⟩

/-- A head that is no part of a word, no point and no mark that lengthens an operator. -/
theorem cons {c : Char} (rest : List Char) (hw : isWordPart c = false) (he : c ≠ '=')
    (hq : c ≠ '?') (hp : c ≠ '.') : Apart (c :: rest) where
  head := by
    intro d hd
    obtain rfl : c = d := by simpa using hd
    exact ⟨hw, he, hq⟩
  noFraction := Token.fractionHere?_of_ne hp rest

theorem blank {c : Char} (rest : List Char) (h : isBlank c) : Apart (c :: rest) := by
  refine .cons rest (isWordPart_of_isBlank h) ?_ ?_ ?_
  all_goals rintro rfl; exact absurd h (by decide)

/-- A dot with a name after it. -/
theorem dot {c : Char} (rest : List Char) (h : c.isDigit = false) : Apart ('.' :: c :: rest) where
  head := by
    intro d hd
    obtain rfl : '.' = d := by simpa using hd
    decide
  noFraction := by simp [Token.fractionHere?, h]

variable {rest : List Char}

theorem isWordStart_head (h : Apart rest) : ∀ c ∈ rest.head?, isWordStart c = false := by
  intro c hc
  refine Bool.eq_false_iff.mpr fun hs => ?_
  exact absurd (isWordPart_of_isWordStart hs) (Bool.eq_false_iff.mp (h.head c hc).1)

theorem isDigit_head (h : Apart rest) : ∀ c ∈ rest.head?, c.isDigit = false := by
  intro c hc
  refine Bool.eq_false_iff.mpr fun hs => ?_
  exact absurd (isWordPart_of_isDigit hs) (Bool.eq_false_iff.mp (h.head c hc).1)

end Apart

/-! ## Runs of characters -/

theorem takeWhile_append_of_head {p : Char → Bool} {rest : List Char}
    (h : ∀ c ∈ rest.head?, p c = false) (cs : List Char) :
    (cs ++ rest).takeWhile p = cs.takeWhile p := by
  induction cs with
  | nil =>
    cases rest with
    | nil => rfl
    | cons c rest => simp [h c (by simp)]
  | cons c cs ih => simp only [List.cons_append, List.takeWhile_cons, ih]

theorem dropWhile_append_of_head {p : Char → Bool} {rest : List Char}
    (h : ∀ c ∈ rest.head?, p c = false) (cs : List Char) :
    (cs ++ rest).dropWhile p = cs.dropWhile p ++ rest := by
  induction cs with
  | nil =>
    cases rest with
    | nil => rfl
    | cons c rest => simp [h c (by simp)]
  | cons c cs ih =>
    simp only [List.cons_append, List.dropWhile_cons, ih]
    split <;> rfl

namespace Token

theorem wordHere?_append {cs rest : List Char} (hr : Apart rest) (h : wordHere? cs = none) :
    wordHere? (cs ++ rest) = none := by
  cases cs with
  | nil =>
    cases rest with
    | nil => rfl
    | cons c rest => simp [wordHere?, hr.isWordStart_head c (by simp)]
  | cons c cs =>
    simp only [wordHere?, ite_eq_right_iff, reduceCtorEq, imp_false] at h
    simp [wordHere?, h]

theorem fractionHere?_append {rest : List Char} (hr : Apart rest) (cs : List Char) :
    fractionHere? (cs ++ rest) = fractionHere? cs := by
  cases cs with
  | nil => exact hr.noFraction
  | cons c cs =>
    by_cases hc : c = '.'
    · subst hc
      cases cs with
      | nil =>
        cases rest with
        | nil => rfl
        | cons d rest => simp [fractionHere?, hr.isDigit_head d (by simp)]
      | cons d cs =>
        have htake := takeWhile_append_of_head hr.isDigit_head (d :: cs)
        simp only [List.cons_append] at htake
        simp only [List.cons_append, fractionHere?, htake]
    · rw [List.cons_append, fractionHere?_of_ne hc, fractionHere?_of_ne hc]

/-- A fraction and the point before it are there to be taken. -/
theorem length_fraction_lt {cs fraction : List Char} (h : fractionHere? cs = some fraction) :
    fraction.length + 1 ≤ cs.length := by
  unfold fractionHere? at h
  split at h
  · split at h
    · cases h
      exact Nat.succ_le_succ (List.takeWhile_sublist Char.isDigit).length_le
    · cases h
  · cases h

/-! The content of a string, character by character. -/

theorem readContent?_mark (q : Char) (cs : List Char) : readContent? q (q :: cs) = some ([], cs) := by
  unfold readContent?
  exact if_pos rfl

theorem readContent?_escape {q : Char} (hq : '\\' ≠ q) (e : Char) (cs : List Char) :
    readContent? q ('\\' :: e :: cs) =
      (readContent? q cs).map fun (s, after) => (unescape e :: s, after) := by
  rw [readContent?.eq_def]
  simp only [if_neg hq, if_true]

theorem readContent?_char {q c : Char} (hq : c ≠ q) (hb : c ≠ '\\') (cs : List Char) :
    readContent? q (c :: cs) = (readContent? q cs).map fun (s, after) => (c :: s, after) := by
  rw [readContent?.eq_def]
  simp only [if_neg hq, if_neg hb]

theorem readContent?_append {q : Char} {cs s after : List Char} (rest : List Char)
    (h : readContent? q cs = some (s, after)) :
    readContent? q (cs ++ rest) = some (s, after ++ rest) := by
  fun_induction readContent? q cs generalizing s with
  | case1 => cases h
  | case2 => cases h; exact readContent?_mark q _
  | case3 => cases h
  | case4 e cs hq ih =>
    obtain ⟨⟨s', after'⟩, hs, he⟩ := Option.map_eq_some_iff.mp h
    cases he
    rw [List.cons_append, List.cons_append, readContent?_escape hq, ih hs]
    rfl
  | case5 c cs hq hb ih =>
    obtain ⟨⟨s', after'⟩, hs, he⟩ := Option.map_eq_some_iff.mp h
    cases he
    rw [List.cons_append, readContent?_char hq hb, ih hs]
    rfl

variable {rest : List Char}

theorem readString_append (hr : Apart rest) {q : Char} {cs after : List Char} {t : Token}
    (h : readString q cs = .ok (t, after)) : readString q (cs ++ rest) = .ok (t, after ++ rest) := by
  unfold readString at h
  split at h
  · cases h
  · next hc =>
    split at h
    · cases h
    · next hw =>
      cases h
      simp only [readString, readContent?_append rest hc, wordHere?_append hr hw]

theorem readNumber_append (hr : Apart rest) {negative : Bool} {cs after : List Char} {t : Token}
    (h : readNumber negative cs = .ok (t, after)) :
    readNumber negative (cs ++ rest) = .ok (t, after ++ rest) := by
  unfold readNumber at h ⊢
  simp only [takeWhile_append_of_head hr.isDigit_head, dropWhile_append_of_head hr.isDigit_head,
    fractionHere?_append hr] at h ⊢
  split at h
  · next fraction hf =>
    split at h
    · cases h
    · next hw =>
      cases h
      rw [List.drop_append_of_le_length (length_fraction_lt hf)]
      simp only [wordHere?_append hr hw]
  · next hf =>
    split at h
    · cases h
    · next hw =>
      simp only [wordHere?_append hr hw]
      cases hi : ofInteger negative (cs.takeWhile Char.isDigit) with
      | error c => rw [hi] at h; cases h
      | ok t' => rw [hi] at h; cases h; rfl

/-- What stands apart from a text is left alone by the token at its head. -/
theorem read_append (hr : Apart rest) {c : Char} {cs after : List Char} {t : Token}
    (h : read c cs = .ok (t, after)) : read c (cs ++ rest) = .ok (t, after ++ rest) := by
  unfold read at h ⊢
  split at h
  · next hq => rw [if_pos hq]; exact readString_append hr h
  · next hq =>
    rw [if_neg hq]
    split at h
    · next hd => rw [if_pos hd]; exact readNumber_append hr h
    · next hd =>
      rw [if_neg hd]
      split at h
      · next hw =>
        rw [if_pos hw]
        cases h
        simp only [takeWhile_append_of_head fun c hc => (hr.head c hc).1,
          dropWhile_append_of_head fun c hc => (hr.head c hc).1]
      · next hw =>
        rw [if_neg hw]
        have hhead : ∀ d tail, rest = d :: tail → d.isDigit = false ∧ d ≠ '=' ∧ d ≠ '?' := by
          rintro d tail rfl
          exact ⟨hr.isDigit_head d rfl, (hr.head d rfl).2⟩
        cases cs with
        | nil =>
          cases rest with
          | nil => simpa using h
          | cons d tail =>
            obtain ⟨hd, he, hq'⟩ := hhead d tail rfl
            split at h
            all_goals try cases h
            all_goals simp_all
        | cons d cs =>
          split at h
          · next d' tail heq =>
            obtain ⟨rfl, rfl⟩ := List.cons.inj heq
            simp only [List.cons_append]
            split at h
            · next hd' =>
              rw [if_pos hd']
              exact readNumber_append hr h
            · next hd' =>
              rw [if_neg hd']
              cases h
              rfl
          all_goals try cases h
          all_goals simp_all

/-! What a token is, by the way it was read. -/

/-- An operator, a bracket or another mark. -/
def isMark : Token → Bool
  | .comparison _ | .assign | .plus | .minus | .dot | .dotQuestion | .questionDot => true
  | .comma | .leftBrace | .rightBrace | .leftParen | .rightParen => true
  | _ => false

/-- What a token can be that is read off `c :: cs`, and what is left behind it. -/
inductive Taken (c : Char) (cs : List Char) : Token → List Char → Prop where
  | string {after : List Char} (s : String) (h : wordHere? after = none) :
      Taken c cs (.string s) after
  | integer {after : List Char} (n : Int64) (h : wordHere? after = none) :
      Taken c cs (.integer n) after
  | float {after : List Char} (negative : Bool) (d : Decimal) (h : wordHere? after = none) :
      Taken c cs (.float (.ofDecimal negative d)) after
  | word (hc : isWordStart c) :
      Taken c cs (ofWord (c :: cs.takeWhile isWordPart)) (cs.dropWhile isWordPart)
  | mark {t : Token} {after : List Char} (hc : isWordPart c = false) (h : t.isMark) :
      Taken c cs t after

section Taken

variable {c : Char} {cs ds after : List Char} {t : Token}

theorem taken_of_readString {q : Char} (h : readString q ds = .ok (t, after)) :
    Taken c cs t after := by
  unfold readString at h
  split at h
  · cases h
  · split at h
    · cases h
    · next hw => cases h; exact .string _ hw

theorem taken_of_readNumber {negative : Bool} (h : readNumber negative ds = .ok (t, after)) :
    Taken c cs t after := by
  unfold readNumber at h
  dsimp only at h
  split at h
  · split at h
    · cases h
    · next hw => cases h; exact .float _ _ hw
  · split at h
    · cases h
    · next hw =>
      unfold ofInteger at h
      dsimp only at h
      generalize (if negative then -(_ : Int) else _) = n at h
      split at h
      · cases h; exact .integer _ hw
      · cases h

theorem taken_of_read (h : read c cs = .ok (t, after)) : Taken c cs t after := by
  unfold read at h
  split at h
  · exact taken_of_readString h
  · split at h
    · exact taken_of_readNumber h
    · split at h
      · next hc => cases h; exact .word hc
      · split at h
        · split at h
          · exact taken_of_readNumber h
          · cases h; exact .mark (by decide) rfl
        all_goals cases h; try exact .mark (by decide) rfl

end Taken

theorem ofWord_ne_eof (word : List Char) : ofWord word ≠ .eof := by
  unfold ofWord
  split <;> simp

/-- The end of the text is no token of its characters. -/
theorem read_ne_eof {c : Char} {cs after : List Char} {t : Token}
    (h : read c cs = .ok (t, after)) : t ≠ .eof := by
  cases taken_of_read h with
  | word => exact ofWord_ne_eof _
  | mark _ h => rintro rfl; cases h
  | _ => nofun

end Token

/-! ## All tokens of a text -/

section

variable {c : Char} {cs : List Char}

theorem tokenizeFrom_nil (position : Nat) : tokenizeFrom position [] = .ok [⟨.eof, position⟩] := by
  rw [tokenizeFrom]

theorem tokenizeFrom_blank (hc : isBlank c) (position : Nat) (cs : List Char) :
    tokenizeFrom position (c :: cs) = tokenizeFrom (position + 1) cs := by
  rw [tokenizeFrom, if_pos hc]

theorem tokenizeFrom_error (hc : isBlank c = false) {complaint : Complaint}
    (h : Token.read c cs = .error complaint) (position : Nat) :
    tokenizeFrom position (c :: cs) = .error ⟨position, complaint⟩ := by
  rw [tokenizeFrom, if_neg (Bool.eq_false_iff.mp hc)]
  split
  · next he =>
    rw [h] at he
    cases he
    rfl
  · next he =>
    rw [h] at he
    cases he

theorem tokenizeFrom_token (hc : isBlank c = false) {t : Token} {after : List Char}
    (h : Token.read c cs = .ok (t, after)) (position : Nat) :
    tokenizeFrom position (c :: cs) =
      (tokenizeFrom (position + ((c :: cs).length - after.length)) after).map
        (⟨t, position⟩ :: ·) := by
  rw [tokenizeFrom, if_neg (Bool.eq_false_iff.mp hc)]
  split
  · next he =>
    rw [h] at he
    cases he
  · next he =>
    rw [h] at he
    cases he
    dsimp only
    cases tokenizeFrom (position + ((c :: cs).length - after.length)) after <;> rfl

end

/-- The tokens of a text, without the end and without positions. -/
inductive Lexes : List Char → List Token → Prop where
  | nil : Lexes [] []
  | blank {c : Char} {cs : List Char} {ts : List Token} (hc : isBlank c) (rest : Lexes cs ts) :
      Lexes (c :: cs) ts
  | token {c : Char} {cs after : List Char} {t : Token} {ts : List Token}
      (hc : isBlank c = false) (h : Token.read c cs = .ok (t, after)) (rest : Lexes after ts) :
      Lexes (c :: cs) (t :: ts)

namespace Lexes

/-- A text and one that stands apart from it, one after the other. -/
theorem append {as bs : List Char} {ts us : List Token} (ha : Lexes as ts) (hb : Lexes bs us)
    (h : Apart bs) : Lexes (as ++ bs) (ts ++ us) := by
  induction ha with
  | nil => exact hb
  | blank hc _ ih => exact .blank hc ih
  | token hc hread _ ih => exact .token hc (Token.read_append h hread) ih

theorem blanks {cs : List Char} (h : ∀ c ∈ cs, isBlank c) : Lexes cs [] := by
  induction cs with
  | nil => exact .nil
  | cons c cs ih => exact .blank (h c (by simp)) (ih fun d hd => h d (by simp [hd]))

theorem blanks_append {cs bs : List Char} {us : List Token} (h : ∀ c ∈ cs, isBlank c)
    (hb : Lexes bs us) : Lexes (cs ++ bs) us := by
  induction cs with
  | nil => exact hb
  | cons c cs ih => exact .blank (h c (by simp)) (ih fun d hd => h d (by simp [hd]))

/-- The tokens before the end are none of them the end. -/
theorem ne_eof {cs : List Char} {ts : List Token} (h : Lexes cs ts) : ∀ t ∈ ts, t ≠ .eof := by
  induction h with
  | nil => simp
  | blank _ _ ih => exact ih
  | token _ hread _ ih =>
    intro t ht
    rcases List.mem_cons.mp ht with rfl | ht
    · exact Token.read_ne_eof hread
    · exact ih t ht

theorem tokenizeFrom {cs : List Char} {ts : List Token} (h : Lexes cs ts) (position : Nat) :
    ∃ front last, tokenizeFrom position cs = .ok (front ++ [⟨.eof, last⟩]) ∧
      front.map Lexeme.token = ts := by
  induction h generalizing position with
  | nil => exact ⟨[], position, tokenizeFrom_nil position, rfl⟩
  | blank hc _ ih =>
    obtain ⟨front, last, hf, hts⟩ := ih (position + 1)
    refine ⟨front, last, ?_, hts⟩
    rw [tokenizeFrom_blank hc, hf]
  | @token c cs after t ts hc hread _ ih =>
    obtain ⟨front, last, hf, hts⟩ := ih (position + ((c :: cs).length - after.length))
    refine ⟨⟨t, position⟩ :: front, last, ?_, by rw [List.map_cons, hts]⟩
    rw [tokenizeFrom_token hc hread, hf]
    rfl

theorem unique {cs : List Char} {ts us : List Token} (h : Lexes cs ts) (h' : Lexes cs us) :
    ts = us := by
  obtain ⟨front, last, hfront, rfl⟩ := h.tokenizeFrom 0
  obtain ⟨front', last', hfront', rfl⟩ := h'.tokenizeFrom 0
  have hsame := Except.ok.inj (hfront.symm.trans hfront')
  rw [(List.append_inj' hsame rfl).1]

end Lexes

/-- The lexemes of a text are its tokens, each with a position, and the end. -/
theorem lexes_of_tokenizeFrom {position : Nat} {cs : List Char} {lexemes : List Lexeme}
    (h : tokenizeFrom position cs = .ok lexemes) :
    ∃ front last, lexemes = front ++ [⟨.eof, last⟩] ∧ Lexes cs (front.map Lexeme.token) := by
  fun_induction tokenizeFrom position cs generalizing lexemes with
  | case1 position => cases h; exact ⟨[], position, rfl, .nil⟩
  | case2 position c cs hc ih =>
    obtain ⟨front, last, rfl, hf⟩ := ih h
    exact ⟨front, last, rfl, .blank hc hf⟩
  | case3 => cases h
  | case4 position c cs hc t after hread taken =>
    rename_i ih
    cases hrest : tokenizeFrom (position + taken) after with
    | error e => rw [hrest] at h; cases h
    | ok lexemes' =>
      rw [hrest] at h
      cases h
      obtain ⟨front, last, rfl, hf⟩ := ih hrest
      exact ⟨⟨t, position⟩ :: front, last, rfl, .token (Bool.eq_false_iff.mpr hc) hread hf⟩

end RowQuery
