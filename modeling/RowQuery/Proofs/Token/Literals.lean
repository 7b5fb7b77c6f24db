import Mathlib.Data.List.TakeWhile
import RowQuery.Expr.Printer
import RowQuery.Proofs.Number.Layout
import RowQuery.Proofs.Token.Quoted

/-!
# Marks, words and literals are one token each

The texts that stand for names, numbers and strings, each read by itself. What stands
before and after them is the business of `Lexes.append`.
-/

set_option autoImplicit false

namespace RowQuery

/-! ## Marks -/

/-- A character that is a token by itself, whatever stands around it. -/
inductive Mark where
  | comma | leftParen | rightParen | leftBrace | rightBrace

namespace Mark

def char : Mark → Char
  | .comma => ','
  | .leftParen => '('
  | .rightParen => ')'
  | .leftBrace => '\x7b'
  | .rightBrace => '\x7d'

def token : Mark → Token
  | .comma => .comma
  | .leftParen => .leftParen
  | .rightParen => .rightParen
  | .leftBrace => .leftBrace
  | .rightBrace => .rightBrace

theorem apart (m : Mark) (rest : List Char) : Apart (m.char :: rest) := by
  cases m <;> exact .cons rest (by decide) (by decide) (by decide) (by decide)

theorem read (m : Mark) (cs : List Char) : Token.read m.char cs = .ok (m.token, cs) := by
  unfold Token.read
  have hq : ¬(m.char = '"' ∨ m.char = '\'') := by cases m <;> decide
  have hd : ¬m.char.isDigit := by cases m <;> decide
  have hw : ¬isWordStart m.char := by cases m <;> decide
  rw [if_neg hq, if_neg hd, if_neg hw]
  cases m <;> rfl

end Mark

theorem Lexes.mark {cs : List Char} {ts : List Token} (h : Lexes cs ts) (m : Mark) :
    Lexes (m.char :: cs) (m.token :: ts) :=
  .token (by cases m <;> decide) (m.read cs) h

/-! ## Words -/

/-- A text that is a word from its first character to its last. -/
def IsWord : List Char → Prop
  | [] => False
  | c :: cs => isWordStart c ∧ ∀ d ∈ cs, isWordPart d

instance IsWord.decidable : (word : List Char) → Decidable (IsWord word)
  | [] => inferInstanceAs (Decidable False)
  | c :: cs => decidable_of_iff (isWordStart c = true ∧ cs.all isWordPart = true)
    (and_congr_right' List.all_eq_true)

theorem IsWord.ne_nil {word : List Char} (h : IsWord word) : word ≠ [] := by
  rintro rfl
  exact h

theorem IsWord.forall_isWordPart {word : List Char} (h : IsWord word) : ∀ c ∈ word, isWordPart c := by
  cases word with
  | nil => exact absurd h id
  | cons c cs => exact List.forall_mem_cons.mpr ⟨isWordPart_of_isWordStart h.1, h.2⟩

theorem isBlank_of_isWordPart {c : Char} (h : isWordPart c) : isBlank c = false := by
  refine Bool.eq_false_iff.mpr fun hb => ?_
  rw [isWordPart_of_isBlank hb] at h
  cases h

theorem isDigit_of_isWordStart {c : Char} (h : isWordStart c) : c.isDigit = false := by
  refine Bool.eq_false_iff.mpr fun hd => ?_
  rw [isWordStart_of_isDigit hd] at h
  cases h

theorem Keyword.isWord (k : Keyword) : IsWord k.word.toList := by
  cases k <;> decide

theorem Keyword.ofWord?_word (k : Keyword) : Keyword.ofWord? k.word.toList = some k := by
  cases k <;> decide

namespace Lexes

/-- A word ends where no character can go on with it. -/
theorem word_append {cs rest : List Char} {ts : List Token} (h : IsWord cs)
    (hr : ∀ c ∈ rest.head?, isWordPart c = false) (hrest : Lexes rest ts) :
    Lexes (cs ++ rest) (Token.ofWord cs :: ts) := by
  cases cs with
  | nil => exact absurd h id
  | cons c cs =>
    obtain ⟨hc, hcs⟩ := h
    rw [List.cons_append]
    refine .token (isBlank_of_isWordPart (isWordPart_of_isWordStart hc)) ?_ hrest
    have hq : ¬(c = '"' ∨ c = '\'') := by
      rintro (rfl | rfl)
      all_goals exact absurd hc (by decide)
    have htake : (cs ++ rest).takeWhile isWordPart = cs := by
      rw [takeWhile_append_of_head hr, List.takeWhile_eq_self_iff.mpr hcs]
    have hdrop : (cs ++ rest).dropWhile isWordPart = rest := by
      rw [dropWhile_append_of_head hr, List.dropWhile_eq_nil_iff.mpr hcs, List.nil_append]
    unfold Token.read
    rw [if_neg hq, isDigit_of_isWordStart hc, if_neg (by simp), if_pos hc, htake, hdrop]

theorem word {cs : List Char} (h : IsWord cs) : Lexes cs [Token.ofWord cs] := by
  have hw := word_append h (by simp) .nil
  rwa [List.append_nil] at hw

/-- A word that is no keyword. -/
theorem name {s : String} (h : IsWord s.toList) (hk : Keyword.ofWord? s.toList = none) :
    Lexes s.toList [.identifier s] := by
  have hw := word h
  rwa [Token.ofWord, hk, String.ofList_toList] at hw

theorem keyword (k : Keyword) : Lexes k.word.toList [.keyword k] := by
  have hw := word k.isWord
  rwa [Token.ofWord, k.ofWord?_word] at hw

end Lexes

/-! ## Names -/

/-- A word that is no keyword in any letter case. -/
structure IsName (name : String) : Prop where
  isWord : IsWord name.toList
  noKeyword : Keyword.ofWord? name.toList = none

/-- A name, or a keyword in lower case. -/
def IsFieldName (name : String) : Prop := IsName name ∨ ∃ k : Keyword, k.word = name

theorem IsFieldName.isWord {name : String} (h : IsFieldName name) : IsWord name.toList := by
  rcases h with h | ⟨k, rfl⟩
  · exact h.isWord
  · exact k.isWord

theorem IsFieldName.exists_token {name : String} (h : IsFieldName name) :
    ∃ t, Lexes name.toList [t] ∧ t.fieldName? = some name := by
  rcases h with h | ⟨k, rfl⟩
  · exact ⟨_, .name h.isWord h.noKeyword, rfl⟩
  · exact ⟨_, .keyword k, rfl⟩

/-- A name does not begin with what lengthens a dot or makes a fraction of it. -/
theorem IsFieldName.exists_head {name : String} (h : IsFieldName name) :
    ∃ c cs, name.toList = c :: cs ∧ c.isDigit = false ∧ c ≠ '?' := by
  have hword := h.isWord
  cases hname : name.toList with
  | nil =>
    rw [hname] at hword
    exact absurd hword id
  | cons c cs =>
    rw [hname] at hword
    refine ⟨c, cs, rfl, isDigit_of_isWordStart hword.1, ?_⟩
    rintro rfl
    exact absurd hword.1 (by decide)

/-! ## Numbers -/

/-- A number's text with its sign. -/
def signed (negative : Bool) (text : List Char) : List Char :=
  if negative then '-' :: text else text

/-- The number that digits name behind a sign. -/
def signedValue (negative : Bool) (digits : List Char) : Int :=
  if negative then -(digitsValue digits) else digitsValue digits

/-- The number has 64 bits. -/
def FitsInt64 (n : Int) : Prop := Int64.minValue.toInt ≤ n ∧ n ≤ Int64.maxValue.toInt

instance (n : Int) : Decidable (FitsInt64 n) := inferInstanceAs (Decidable (_ ∧ _))

theorem signedValue_toDigits (n : Int) : signedValue (n < 0) (Nat.toDigits 10 n.natAbs) = n := by
  unfold signedValue
  rw [digitsValue_toDigits]
  by_cases hn : n < 0
  · rw [decide_eq_true hn, if_pos rfl]
    omega
  · rw [decide_eq_false hn, if_neg (by simp)]
    omega

/-- The decimal text of a number is its digits behind its sign. -/
theorem toList_toString (n : Int) :
    (toString n).toList = signed (n < 0) (Nat.toDigits 10 n.natAbs) := by
  rw [Int.toString_eq_repr, Int.repr_eq_if]
  by_cases hn : n < 0
  · have habs : (-n).toNat = n.natAbs := by omega
    rw [if_neg (by omega), decide_eq_true hn, String.toList_append, habs, Nat.toList_repr]
    rfl
  · have habs : n.toNat = n.natAbs := by omega
    rw [if_pos (by omega), decide_eq_false hn, habs, Nat.toList_repr]
    rfl

namespace Token

variable {rest : List Char}

/-- Digits are an integer unless a fraction or a word follows. -/
theorem readNumber_whole_append (negative : Bool) {digits : List Char}
    (h : ∀ c ∈ digits, c.isDigit) (hr : ∀ c ∈ rest.head?, c.isDigit = false)
    (hf : fractionHere? rest = none) :
    readNumber negative (digits ++ rest) = match wordHere? rest with
      | some word => .error (.wordAfterNumber (String.ofList (signed negative digits))
        (String.ofList word))
      | none => (ofInteger negative digits).map (·, rest) := by
  have htake : (digits ++ rest).takeWhile Char.isDigit = digits := by
    rw [takeWhile_append_of_head hr, List.takeWhile_eq_self_iff.mpr h]
  have hdrop : (digits ++ rest).dropWhile Char.isDigit = rest := by
    rw [dropWhile_append_of_head hr, List.dropWhile_eq_nil_iff.mpr h, List.nil_append]
  unfold readNumber
  rw [htake, hdrop]
  dsimp only
  rw [hf]
  rfl

/-- Digits, a point and digits are a float unless a word follows. -/
theorem readNumber_positional_append (negative : Bool) {text whole fraction : List Char}
    (h : NumberStyle.IsPositional text whole fraction)
    (hr : ∀ c ∈ rest.head?, c.isDigit = false) :
    readNumber negative (text ++ rest) = match wordHere? rest with
      | some word => .error (.wordAfterNumber (String.ofList (signed negative text))
        (String.ofList word))
      | none => .ok (ofFraction negative whole fraction, rest) := by
  have hwhole : ∀ c ∈ whole, c.isDigit := fun c hc => h.isDigit c (List.mem_append_left _ hc)
  have hfraction : ∀ c ∈ fraction, c.isDigit := fun c hc => h.isDigit c (List.mem_append_right _ hc)
  have hpoint : ∀ c ∈ ('.' :: (fraction ++ rest)).head?, c.isDigit = false := by simp
  have htext : text ++ rest = whole ++ '.' :: (fraction ++ rest) := by
    rw [h.text_eq, List.append_assoc, List.cons_append]
  have htake : (text ++ rest).takeWhile Char.isDigit = whole := by
    rw [htext, takeWhile_append_of_head hpoint, List.takeWhile_eq_self_iff.mpr hwhole]
  have hdrop : (text ++ rest).dropWhile Char.isDigit = '.' :: (fraction ++ rest) := by
    rw [htext, dropWhile_append_of_head hpoint, List.dropWhile_eq_nil_iff.mpr hwhole,
      List.nil_append]
  have hhere : fractionHere? ('.' :: (fraction ++ rest)) = some fraction := by
    obtain ⟨c, cs, rfl⟩ := List.exists_cons_of_ne_nil h.fraction_ne_nil
    have hall : (c :: (cs ++ rest)).takeWhile Char.isDigit = c :: cs := by
      rw [← List.cons_append, takeWhile_append_of_head hr, List.takeWhile_eq_self_iff.mpr hfraction]
    rw [List.cons_append, fractionHere?, if_pos (hfraction c (by simp)), hall]
  unfold readNumber
  rw [htake, hdrop]
  dsimp only
  rw [hhere, h.text_eq]
  simp only [List.drop_succ_cons, List.drop_left]
  rfl

theorem ofInteger_of_fits {negative : Bool} {digits : List Char}
    (h : FitsInt64 (signedValue negative digits)) :
    ofInteger negative digits = .ok (.integer (.ofInt (signedValue negative digits))) := by
  have hrange : (decide (Int64.minValue.toInt ≤ signedValue negative digits) &&
      decide (signedValue negative digits ≤ Int64.maxValue.toInt)) = true := by
    rw [decide_eq_true h.1, decide_eq_true h.2]
    rfl
  exact if_pos hrange

theorem ofInteger_of_not_fits {negative : Bool} {digits : List Char}
    (h : ¬FitsInt64 (signedValue negative digits)) :
    ofInteger negative digits =
      .error (.integerOutOfRange (String.ofList (signed negative digits))) := by
  have hrange : ¬(decide (Int64.minValue.toInt ≤ signedValue negative digits) &&
      decide (signedValue negative digits ≤ Int64.maxValue.toInt)) = true := by
    simpa [FitsInt64] using h
  exact if_neg hrange

/-- Digits are an integer where nothing can be taken in behind them. -/
theorem readNumber_digits (negative : Bool) {digits : List Char} (h : ∀ c ∈ digits, c.isDigit)
    (hr : Apart rest) :
    readNumber negative (digits ++ rest) = (ofInteger negative digits).map (·, rest) := by
  have hword : wordHere? ([] ++ rest) = none := wordHere?_append hr rfl
  rw [List.nil_append] at hword
  rw [readNumber_whole_append negative h hr.isDigit_head hr.noFraction, hword]

theorem read_digit {c : Char} (h : c.isDigit) (cs : List Char) :
    read c cs = readNumber false (c :: cs) := by
  have hq : ¬(c = '"' ∨ c = '\'') := by
    rintro (rfl | rfl)
    all_goals exact absurd h (by decide)
  unfold read
  rw [if_neg hq, if_pos h]

theorem read_minus_digit {c : Char} (h : c.isDigit) (cs : List Char) :
    read '-' (c :: cs) = readNumber true (c :: cs) := by
  unfold read
  rw [if_neg (by decide), if_neg (by decide), if_neg (by decide)]
  exact if_pos h

end Token

namespace Lexes

/-- A text that begins with a digit is one token if a number is read off it whole. -/
theorem number {negative : Bool} {c : Char} {cs : List Char} {t : Token} (hc : c.isDigit)
    (h : Token.readNumber negative (c :: cs) = .ok (t, [])) :
    Lexes (signed negative (c :: cs)) [t] := by
  cases negative with
  | false =>
    refine .token (isBlank_of_isWordPart (isWordPart_of_isDigit hc)) ?_ .nil
    rw [Token.read_digit hc, h]
  | true =>
    refine .token (by decide) ?_ .nil
    rw [Token.read_minus_digit hc, h]

/-- Digits of a number that has 64 bits. -/
theorem digits (negative : Bool) {digits : List Char} (nonempty : digits ≠ [])
    (h : ∀ c ∈ digits, c.isDigit) (hfits : FitsInt64 (signedValue negative digits)) :
    Lexes (signed negative digits) [.integer (.ofInt (signedValue negative digits))] := by
  have hread := Token.readNumber_digits negative h Apart.nil
  rw [List.append_nil, Token.ofInteger_of_fits hfits] at hread
  obtain ⟨c, cs, rfl⟩ := List.exists_cons_of_ne_nil nonempty
  exact number (h c (by simp)) hread

theorem integer (n : Int64) : Lexes (toString n.toInt).toList [.integer n] := by
  have hvalue := signedValue_toDigits n.toInt
  have hfits : FitsInt64 (signedValue (n.toInt < 0) (Nat.toDigits 10 n.toInt.natAbs)) := by
    rw [hvalue]
    exact ⟨n.minValue_le_toInt, n.toInt_le⟩
  have hlex := digits _ Nat.toDigits_ne_nil (isDigit_toDigits n.toInt.natAbs) hfits
  rwa [← toList_toString, hvalue, Int64.ofInt_toInt] at hlex

end Lexes

/-- A double that is written without an exponent: its text is digits, a point and digits, perhaps
after a sign. -/
def Binary64.IsPlain (x : Binary64) : Prop :=
  ∃ negative text whole fraction, (NumberStyle.literal.writeAll x).toList = signed negative text ∧
    NumberStyle.IsPositional text whole fraction

theorem signed_chars (negative : Bool) {text whole fraction : List Char}
    (h : NumberStyle.IsPositional text whole fraction) :
    ∀ c ∈ signed negative text, c = '-' ∨ c = '.' ∨ c.isDigit := by
  have htext : ∀ c ∈ text, c = '.' ∨ c.isDigit := by
    intro c hc
    rw [h.text_eq, List.mem_append, List.mem_cons] at hc
    rcases hc with hc | rfl | hc
    · exact .inr (h.isDigit c (List.mem_append_left _ hc))
    · exact .inl rfl
    · exact .inr (h.isDigit c (List.mem_append_right _ hc))
  intro c hc
  cases negative with
  | false => exact .inr (htext c hc)
  | true =>
    rcases List.mem_cons.mp hc with rfl | hc
    · exact .inl rfl
    · exact .inr (htext c hc)

theorem NumberStyle.toList_write (style : NumberStyle) (x : Finite64) :
    (style.write x).toList = signed x.negative
      (if style.positional ((x.shortest style.tie).exponent +
          decimalLength (x.shortest style.tie).digits - 1) then
        style.layPositional (x.shortest style.tie)
      else style.layScientific (x.shortest style.tie) ((x.shortest style.tie).exponent +
        decimalLength (x.shortest style.tie).digits - 1)).toList := by
  rw [NumberStyle.write, String.toList_append]
  cases x.negative <;> rfl

/-- Not-a-number and infinities have names, and an exponent has a letter before it. -/
theorem Binary64.IsPlain.eq_finite {x : Binary64} (h : x.IsPlain) :
    ∃ v, x = .finite v ∧ (NumberStyle.literal.writeAll x).toList =
      signed v.negative (NumberStyle.literal.layPositional (v.shortest .up)).toList := by
  obtain ⟨negative, text, whole, fraction, htext, hpos⟩ := h
  have hchars := signed_chars negative hpos
  rw [← htext] at hchars
  cases x with
  | nan => exact absurd (hchars 'N' (by decide)) (by decide)
  | infinite n => exact absurd (hchars 'n' (by cases n <;> decide)) (by decide)
  | finite v =>
    refine ⟨v, rfl, ?_⟩
    rw [NumberStyle.writeAll, NumberStyle.toList_write] at hchars ⊢
    split at hchars
    next hpositional => rw [if_pos hpositional, NumberStyle.literal]
    next =>
      refine absurd (hchars 'e' ?_) (by decide)
      unfold NumberStyle.layScientific
      cases v.negative <;> simp [signed]

namespace Lexes

theorem float {x : Binary64} (h : x.IsPlain) :
    Lexes (NumberStyle.literal.writeAll x).toList [.float x] := by
  obtain ⟨v, rfl, htext⟩ := h.eq_finite
  obtain ⟨whole, fraction, n, hpos, hvalue, hexp⟩ :=
    NumberStyle.exists_layPositional (v.shortest .up)
  have hread := Token.readNumber_positional_append v.negative hpos Apart.nil.isDigit_head
  rw [List.append_nil, Token.ofFraction, Finite64.ofDecimal_shortest hvalue hexp] at hread
  rw [htext]
  have heq := hpos.text_eq
  generalize (NumberStyle.literal.layPositional (v.shortest .up)).toList = text at *
  obtain ⟨c, cs, rfl⟩ := List.exists_cons_of_ne_nil hpos.whole_ne_nil
  subst heq
  exact number (hpos.isDigit c (by simp)) hread

end Lexes

/-! ## Strings -/

namespace Quoted

/-- A character that quoted text shows as it is or after a backslash with one letter, as `"`, `\\`
and the line ends are. -/
def IsPlain (c : Char) : Prop :=
  encodeChar c = [c] ∨ ∃ e ∈ ['"', '\\', 'n', 'r', 't'], encodeChar c = ['\\', e]

theorem IsPlain.respell_eq {c : Char} (h : IsPlain c) : respell c = [c] := by
  have hspelling := spelling c
  generalize respell c = reading at hspelling ⊢
  rcases h with hc | ⟨e, he, hc⟩
  · rw [hc] at hspelling
    cases hspelling
    rfl
  · rw [hc] at hspelling
    cases hspelling with
    | letter => rfl
    | lost hletter => rcases hletter with rfl | rfl <;> simp at he

end Quoted

theorem Lexes.quote {s : String} (h : ∀ c ∈ s.toList, Quoted.IsPlain c) :
    Lexes (quote s).toList [.string s] := by
  have hself : s.toList.flatMap Quoted.respell = s.toList := by
    rw [List.flatMap_congr fun c hc => (h c hc).respell_eq, List.flatMap_singleton']
  have hquote := quote_respell s
  rwa [hself, String.ofList_toList] at hquote

end RowQuery
