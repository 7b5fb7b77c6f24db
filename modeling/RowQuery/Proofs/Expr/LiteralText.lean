import RowQuery.Proofs.Expr.RoundTrip
import RowQuery.Proofs.Number.Notation

/-!
# Literals that do not read back

The text of a literal is meant to be query text, but it has forms that the lexer does not know.
Numbers that are very large or very small are written with an exponent, and an exponent runs into
the digits as a word would (`not_lexes_scientific`). Infinities are written as names. Concealed
characters other than the tabulator and the line ends are escaped in a form that means nothing
between quote marks: such a string is not refused but read as another one (`Quoted.respell`).

`Expr.parse_text_literal_iff` collects the three: it says which literals read back.
-/

set_option autoImplicit false

namespace RowQuery

/-! ## Numbers -/

/-- A text that begins with a digit has no tokens if no number is read off it. -/
theorem not_lexes_signed {negative : Bool} {c : Char} {cs : List Char} {complaint : Complaint}
    (hc : c.isDigit) (h : Token.readNumber negative (c :: cs) = .error complaint)
    (ts : List Token) : ¬Lexes (signed negative (c :: cs)) ts := by
  intro hlex
  cases negative with
  | false =>
    cases hlex with
    | blank hb =>
      rw [isBlank_of_isWordPart (isWordPart_of_isDigit hc)] at hb
      cases hb
    | token _ hread =>
      rw [Token.read_digit hc, h] at hread
      cases hread
  | true =>
    cases hlex with
    | blank hb => exact absurd hb (by decide)
    | token _ hread =>
      rw [Token.read_minus_digit hc, h] at hread
      cases hread

/-- An exponent runs into the digits before it. -/
theorem not_lexes_scientific (negative : Bool) (d : Decimal) (e : Int) (ts : List Token) :
    ¬Lexes (signed negative (NumberStyle.literal.layScientific d e).toList) ts := by
  have hdigits := isDigit_toDigits d.digits
  have hword : isWordStart 'e' := by decide
  have hletter : ∀ c ∈ ('e' :: (toString e).toList).head?, c.isDigit = false := by simp
  unfold NumberStyle.layScientific
  split
  · next hnil => exact absurd hnil Nat.toDigits_ne_nil
  · next c hsingle =>
    rw [hsingle] at hdigits
    have hread := Token.readNumber_whole_append negative hdigits hletter rfl
    rw [Token.wordHere?, if_pos hword] at hread
    have htext : (String.singleton c ++ "e" ++ "" ++ toString e).toList =
        c :: 'e' :: (toString e).toList := by simp
    intro hlex
    exact not_lexes_signed (hdigits c (by simp)) hread ts (htext ▸ hlex)
  · next c rest hrest hcons =>
    rw [hcons] at hdigits
    have hpositional : NumberStyle.IsPositional (c :: '.' :: rest) [c] rest :=
      ⟨rfl, by simp, by simpa using hrest, hdigits⟩
    have hread := Token.readNumber_positional_append negative hpositional hletter
    rw [Token.wordHere?, if_pos hword] at hread
    have htext : (String.singleton c ++ "." ++ String.ofList rest ++ "e" ++ "" ++
        toString e).toList = c :: '.' :: (rest ++ 'e' :: (toString e).toList) := by simp
    intro hlex
    exact not_lexes_signed (hdigits c (by simp)) hread ts (htext ▸ hlex)

theorem Finite64.toList_write_literal (x : Finite64) :
    (NumberStyle.literal.write x).toList = signed x.negative
      (if NumberStyle.literal.positional (x.shortest .up).first then
        NumberStyle.literal.layPositional (x.shortest .up)
      else NumberStyle.literal.layScientific (x.shortest .up) (x.shortest .up).first).toList :=
  NumberStyle.toList_write _ x

/-- A moderate double is written without an exponent. -/
theorem Finite64.IsModerate.isPlain {x : Finite64} (h : x.IsModerate) :
    Binary64.IsPlain (.finite x) := by
  obtain ⟨whole, fraction, -, hpositional, -⟩ :=
    NumberStyle.exists_layPositional (x.shortest .up)
  refine ⟨x.negative, _, whole, fraction, ?_, hpositional⟩
  rw [NumberStyle.writeAll, toList_write_literal, if_pos (positional_iff.mpr h)]

/-- Any other double has no tokens. -/
theorem Finite64.isModerate_of_lexes {x : Finite64} {ts : List Token}
    (h : Lexes (NumberStyle.literal.write x).toList ts) : x.IsModerate := by
  by_contra hx
  rw [toList_write_literal, if_neg (positional_iff.not.mpr hx)] at h
  exact not_lexes_scientific _ _ _ _ h

/-! ## Values -/

/-- The kinds of values that have literals. -/
def Value.IsScalar : Value → Prop
  | .array _ => False
  | .object _ => False
  | .capability _ => False
  | _ => True

/-- The values whose literal reads back: finite doubles that are zero or lie from `0.0001` up to
`10 ^ 16`, and strings of shown characters, tabulators and line ends. -/
def Value.ReadsBack : Value → Prop
  | .null => True
  | .bool _ => True
  | .int _ => True
  | .float .nan => False
  | .float (.infinite _) => False
  | .float (.finite x) => x.IsModerate
  | .string s => ∀ c ∈ s.toList, isConcealed c → c = '\t' ∨ c = '\n' ∨ c = '\r'
  | .array _ => False
  | .object _ => False
  | .capability _ => False

namespace Expr

theorem isScalar_of_literalOf? {t : Token} {v : Value} (h : literalOf? t = some v) :
    v.IsScalar := by
  cases t with
  | integer n => cases h; trivial
  | float x => cases h; trivial
  | string s => cases h; trivial
  | keyword k => cases k <;> cases h <;> trivial
  | _ => cases h

theorem isScalar_of_negatedOf? {t : Token} {v : Value} (h : negatedOf? t = some v) :
    v.IsScalar := by
  cases t with
  | integer n =>
    obtain ⟨-, hv⟩ := Option.ite_none_left_eq_some.mp h
    cases hv
    trivial
  | float x => cases h; trivial
  | _ => cases h

theorem segment_ne_literal (e : Expr) (s : Segment) (v : Value) : e.segment s ≠ .literal v := by
  unfold segment
  split <;> nofun

theorem Derives.isScalar {r : Rung} {ts : List Token} {e : Expr} (h : Derives r ts e) {v : Value}
    (he : e = .literal v) : v.IsScalar := by
  induction h with
  | literal ht => cases he; exact isScalar_of_literalOf? ht
  | negative ht => cases he; exact isScalar_of_negatedOf? ht
  | group _ ih => exact ih he
  | ofAtom _ ih => exact ih he
  | ofChain _ ih => exact ih he
  | ofSum _ ih => exact ih he
  | ofComparison _ ih => exact ih he
  | ofNegation _ ih => exact ih he
  | ofConjunction _ ih => exact ih he
  | property => exact absurd he (segment_ne_literal _ _ _)
  | name => cases he
  | call => cases he
  | add => cases he
  | compare => cases he
  | not => cases he
  | and => cases he
  | or => cases he

/-- No text is read as the literal of an array, an object or a capability. -/
theorem isScalar_of_parse {text : String} {v : Value} (h : parse text = .ok (.literal v)) :
    v.IsScalar := by
  obtain ⟨ts, -, hder⟩ := parse_eq_ok_iff.mp h
  exact hder.isScalar rfl

/-- A quoted string is always read as a string. -/
theorem parse_quote (s : String) : parse (quote s) =
    .ok (.literal (.string (String.ofList (s.toList.flatMap Quoted.respell)))) := by
  refine parse_eq_ok_iff.mpr ⟨_, Lexes.quote_respell s, ?_⟩
  exact (Derives.ofAtom (.literal rfl)).chain_disjunction

example : "\x01".toList.flatMap Quoted.respell = "u\x7b1\x7d".toList := by decide

/-- A minus sign applies to numbers, and the name of an infinity is none. -/
theorem parse_minus_inf : parse "-inf" = .error ⟨1, .negatedNonNumber (.identifier "inf")⟩ := by
  have htokens : tokenize "-inf" = .ok [⟨.minus, 0⟩, ⟨.identifier "inf", 1⟩, ⟨.eof, 4⟩] := by decide +kernel
  unfold parse
  rw [htokens]
  rfl

/-- The doubles that are no finite numbers are written as names, or as a name after a minus sign. -/
theorem parse_float_name {x : Binary64} (h : ∀ v, x ≠ .finite v) :
    parse (NumberStyle.literal.writeAll x) ≠ .ok (.literal (.float x)) := by
  intro hparse
  cases x with
  | nan =>
    have hname : IsName "NaN" := ⟨by decide, by decide⟩
    cases (parse_text (.name hname)).symm.trans hparse
  | infinite negative =>
    cases negative with
    | false =>
      have hname : IsName "inf" := ⟨by decide, by decide⟩
      cases (parse_text (.name hname)).symm.trans hparse
    | true => cases parse_minus_inf.symm.trans hparse
  | finite v => exact h v rfl

/-- The text of a literal is read as the literal if its value reads back. Of any other value it is
refused or read as another expression. -/
theorem parse_text_literal_iff (v : Value) :
    parse (literal v).text = .ok (.literal v) ↔ v.ReadsBack := by
  cases v with
  | null => exact iff_of_true (parse_text (.literal trivial)) trivial
  | bool b => exact iff_of_true (parse_text (.literal trivial)) trivial
  | int n => exact iff_of_true (parse_text (.literal trivial)) trivial
  | float x =>
    cases x with
    | nan => exact iff_of_false (parse_float_name nofun) id
    | infinite negative => exact iff_of_false (parse_float_name nofun) id
    | finite x =>
      constructor
      · intro h
        obtain ⟨ts, hlex, -⟩ := parse_eq_ok_iff.mp h
        exact Finite64.isModerate_of_lexes hlex
      · intro h
        exact parse_text (.literal (Finite64.IsModerate.isPlain h))
  | string s =>
    have hparse : parse (literal (.string s)).text = _ := parse_quote s
    rw [hparse, Except.ok.injEq, literal.injEq, Value.string.injEq, ← String.toList_inj,
      String.toList_ofList, Quoted.flatMap_respell_eq_iff]
    rfl
  | array items => exact iff_of_false isScalar_of_parse id
  | object fields => exact iff_of_false isScalar_of_parse id
  | capability handle => exact iff_of_false isScalar_of_parse id

/-- `10 ^ 16` can be written, but not in the text of its literal. -/
theorem parse_text_literal_large :
    let v : Value := .float (.finite ⟨false, Finite64.highRank⟩)
    parse "10000000000000000.0" = .ok (.literal v) ∧
      parse (literal v).text = .error ⟨0, .wordAfterNumber "1" "e16"⟩ := by
  intro v
  constructor
  · have hpositional : NumberStyle.IsPositional "10000000000000000.0".toList
        "10000000000000000".toList ['0'] :=
      ⟨rfl, by decide, by decide, List.all_eq_true.mp (by decide)⟩
    have hvalue : Token.ofFraction false "10000000000000000".toList ['0'] =
        .float (.finite ⟨false, Finite64.highRank⟩) := by decide +kernel
    have hread := Token.readNumber_positional_append false hpositional Apart.nil.isDigit_head
    rw [List.append_nil, hvalue] at hread
    exact parse_eq_ok_iff.mpr ⟨_, Lexes.number (by decide) hread,
      (Derives.ofAtom (.literal rfl)).chain_disjunction⟩
  · have htext : (literal v).text = "1e16" := by decide +kernel
    have htokens : tokenize "1e16" = .error ⟨0, .wordAfterNumber "1" "e16"⟩ := by decide +kernel
    unfold parse
    rw [htext, htokens]
    rfl

end Expr
end RowQuery
