import RowQuery.Proofs.Expr.Recognition
import RowQuery.Proofs.Query.Agreement
import RowQuery.Proofs.Token.Joined
import RowQuery.Proofs.Token.Literals

/-!
# Literals and the texts written for them

Every string and every integer has a text that is read back as it. A decimal text that names no
number of 64 bits is refused where it stands, whatever is around it (`Surrounds`).

A minus sign is part of a number's token. With a blank behind it, it is a token of its own, and the
digits are read without it and negated afterwards. Downward the range is one number longer than
upward, so the two spellings agree but for that number.
-/

set_option autoImplicit false

namespace RowQuery

/-! ## Decimal texts -/

/-- The text is digits, perhaps behind a minus sign, and names the number. -/
inductive IsDecimal : String → Int → Prop where
  | digits (negative : Bool) {digits : List Char} (nonempty : digits ≠ [])
      (h : ∀ c ∈ digits, c.isDigit) :
      IsDecimal (String.ofList (signed negative digits)) (signedValue negative digits)

theorem isDecimal_toString (n : Int) : IsDecimal (toString n) n := by
  have h : IsDecimal _ (signedValue _ _) :=
    .digits (n < 0) Nat.toDigits_ne_nil (isDigit_toDigits n.natAbs)
  rwa [signedValue_toDigits, ← toList_toString, String.ofList_toList] at h

/-- What begins with a digit, perhaps behind a minus sign, is refused where no number is read. -/
theorem tokenizeFrom_signed {negative : Bool} {c : Char} {cs : List Char} {complaint : Complaint}
    (hc : c.isDigit) (h : Token.readNumber negative (c :: cs) = .error complaint) (position : Nat) :
    tokenizeFrom position (signed negative (c :: cs)) = .error ⟨position, complaint⟩ := by
  cases negative with
  | false =>
    rw [signed, if_neg Bool.false_ne_true]
    exact tokenizeFrom_error (isBlank_of_isWordPart (isWordPart_of_isDigit hc))
      ((Token.read_digit hc cs).trans h) position
  | true =>
    rw [signed, if_pos rfl]
    exact tokenizeFrom_error (by decide) ((Token.read_minus_digit hc cs).trans h) position

theorem signed_append (negative : Bool) (text rest : List Char) :
    signed negative text ++ rest = signed negative (text ++ rest) := by
  cases negative <;> rfl

namespace IsDecimal

variable {text : String} {n : Int}

/-- A number of more than 64 bits is refused where its text begins. -/
theorem tokenizeFrom (h : IsDecimal text n) (hn : ¬FitsInt64 n) {rest : List Char}
    (hr : Apart rest) (position : Nat) :
    tokenizeFrom position (text.toList ++ rest) = .error ⟨position, .integerOutOfRange text⟩ := by
  cases h with
  | @digits negative digits nonempty h =>
    have hread := Token.readNumber_digits negative h hr
    rw [Token.ofInteger_of_not_fits hn] at hread
    obtain ⟨c, cs, rfl⟩ := List.exists_cons_of_ne_nil nonempty
    rw [String.toList_ofList, signed_append]
    exact tokenizeFrom_signed (h c List.mem_cons_self) hread position

end IsDecimal

/-! ## Places in a text -/

/-- What stands around a text leaves it alone. In front of it are tokens and then blanks, which are
missing only where nothing is in front of them; behind it is nothing that it could take in. -/
structure Surrounds (front gap back : String) : Prop where
  tokens : ∃ lexemes, tokenize front = .ok lexemes
  blanks : ∀ c ∈ gap.toList, isBlank c
  gapless : gap = "" → front = ""
  behind : Apart back.toList

/-- What is refused where it begins is refused at its place in a text. -/
theorem Surrounds.tokenize {front gap back : String} (h : Surrounds front gap back)
    {text : String} {complaint : Complaint}
    (htext : ∀ position, tokenizeFrom position (text.toList ++ back.toList) =
      .error ⟨position, complaint⟩) :
    tokenize (front ++ gap ++ text ++ back) = .error ⟨(front ++ gap).length, complaint⟩ := by
  obtain ⟨lexemes, hlexemes⟩ := h.tokens
  obtain ⟨spans, htiles, -⟩ := exists_tiles_of_tokenize hlexemes
  have hgap : ∀ position, tokenizeFrom position (gap.toList ++ (text.toList ++ back.toList)) =
      .error ⟨position + gap.length, complaint⟩ := fun position => by
    rw [tokenizeFrom_blanks h.blanks, htext, String.length_toList]
  unfold RowQuery.tokenize
  simp only [String.toList_append, List.append_assoc, String.length_append]
  by_cases hgapless : gap = ""
  · subst hgapless
    obtain rfl := h.gapless rfl
    exact htext 0
  · have hapart : Apart (gap.toList ++ (text.toList ++ back.toList)) :=
      .blanks (mt String.toList_eq_nil_iff.mp hgapless) h.blanks _
    rw [htiles.tokenizeFrom_append hapart, hgap, Nat.zero_add, String.length_toList]
    rfl

theorem Expr.parse_of_tokenize_error {text : String} {e : ParseError}
    (h : tokenize text = .error e) : Expr.parse text = .error e := by
  unfold Expr.parse
  rw [h]
  rfl

theorem Query.parse_of_tokenize_error {text : String} {e : ParseError}
    (h : tokenize text = .error e) : Query.parse text = .error e := by
  unfold Query.parse
  rw [h]
  rfl

/-- A text of one token that is a literal. -/
theorem Expr.parse_literal {text : String} {t : Token} {v : Value} (h : Lexes text.toList [t])
    (hv : Expr.literalOf? t = some v) : Expr.parse text = .ok (.literal v) :=
  Expr.parse_eq_ok_iff.mpr ⟨_, h, (Expr.Derives.ofAtom (.literal hv)).chain_disjunction⟩

/-- Every string is all that its text between either quote marks is read as, and every integer of 64
bits is read from its decimal text. The decimal text of any other number is refused at the place
where it stands, whatever is around it. -/
theorem read_literal_texts :
    (∀ (q : Char) (s : String), q = '"' ∨ q = '\'' →
      tokenize (Quoted.enquote q s) = .ok [⟨.string s, 0⟩, ⟨.eof, (Quoted.enquote q s).length⟩]) ∧
    (∀ n : Int64, Expr.parse (toString n.toInt) = .ok (.literal (.int n))) ∧
    ∀ (text : String) (n : Int) (front gap back : String), IsDecimal text n → ¬FitsInt64 n →
      Surrounds front gap back →
      let whole := front ++ gap ++ text ++ back
      let e : ParseError := ⟨(front ++ gap).length, .integerOutOfRange text⟩
      tokenize whole = .error e ∧ Expr.parse whole = .error e ∧ Query.parse whole = .error e := by
  refine ⟨fun q s hq => ?_, fun n => Expr.parse_literal (.integer n) rfl, ?_⟩
  · have hblank : isBlank q = false := by rcases hq with rfl | rfl <;> decide
    rw [Quoted.enquote, tokenize_of_read hblank (Quoted.read_escaped hq s), String.length_ofList,
      List.length_cons]
  · intro text n front gap back htext hn hplace whole e
    have herror : tokenize whole = .error e :=
      hplace.tokenize fun position => htext.tokenizeFrom hn hplace.behind position
    exact ⟨herror, Expr.parse_of_tokenize_error herror, Query.parse_of_tokenize_error herror⟩

/-- A string of both quote marks, a backslash and a line end; the least number there is; and one more
than the greatest, inside a comparison. -/
theorem read_literal_texts_edges :
    (Quoted.enquote '\'' "it's \"\\n\"\n" = "'it\\'s \"\\\\n\"\n'" ∧
      tokenize "'it\\'s \"\\\\n\"\n'" = .ok [⟨.string "it's \"\\n\"\n", 0⟩, ⟨.eof, 14⟩]) ∧
    Expr.parse "-9223372036854775808" = .ok (.literal (.int Int64.minValue)) ∧
    (IsDecimal "9223372036854775808" 9223372036854775808 ∧ ¬FitsInt64 9223372036854775808 ∧
      Surrounds "(x ==" " " ")" ∧
      Expr.parse "(x == 9223372036854775808)" =
        .error ⟨6, .integerOutOfRange "9223372036854775808"⟩) := by
  obtain ⟨hstring, hinteger, hbeyond⟩ := read_literal_texts
  have hquoted : Quoted.enquote '\'' "it's \"\\n\"\n" = "'it\\'s \"\\\\n\"\n'" := by decide
  have hread := hstring '\'' "it's \"\\n\"\n" (.inr rfl)
  rw [hquoted] at hread
  have htext : toString (9223372036854775808 : Int) = "9223372036854775808" := by decide
  have hdecimal := isDecimal_toString 9223372036854775808
  rw [htext] at hdecimal
  have hlarge : ¬FitsInt64 9223372036854775808 := by decide
  have hfront : tokenize "(x ==" =
      .ok [⟨.leftParen, 0⟩, ⟨.identifier "x", 1⟩, ⟨.comparison .equal, 3⟩, ⟨.eof, 5⟩] := by
    decide +kernel
  have hplace : Surrounds "(x ==" " " ")" :=
    { tokens := ⟨_, hfront⟩
      blanks := List.forall_mem_singleton.mpr (by decide)
      gapless := by decide
      behind := Mark.apart .rightParen [] }
  exact ⟨⟨hquoted, hread⟩, hinteger Int64.minValue, hdecimal, hlarge, hplace,
    (hbeyond _ _ _ _ _ hdecimal hlarge hplace).2.1⟩

/-! ## A minus sign with a blank behind it -/

theorem fitsInt64_iff {n : Int} : FitsInt64 n ↔ -2 ^ 63 ≤ n ∧ n < 2 ^ 63 := by
  rw [FitsInt64, Int64.toInt_minValue, Int64.toInt_maxValue, Int.le_sub_one_iff]

theorem fitsInt64_neg {n : Int} (h0 : 0 ≤ n) (h : FitsInt64 n) : FitsInt64 (-n) := by
  rw [fitsInt64_iff] at *
  omega

/-- Upward the range ends one number earlier than downward. -/
theorem fitsInt64_of_neg {n : Int} (h0 : 0 ≤ n) (h : FitsInt64 (-n))
    (hleast : -n ≠ Int64.minValue.toInt) : FitsInt64 n := by
  rw [fitsInt64_iff, Int64.toInt_minValue] at *
  omega

theorem not_fitsInt64_of_neg {n : Int} (h : -n = Int64.minValue.toInt) : ¬FitsInt64 n := by
  rw [fitsInt64_iff, Int64.toInt_minValue] at *
  omega

theorem Expr.negatedOf?_ofInt {n : Int} (h0 : 0 ≤ n) (h : FitsInt64 n) :
    negatedOf? (.integer (.ofInt n)) = some (.int (.ofInt (-n))) := by
  have hne : Int64.ofInt n ≠ Int64.minValue := by
    rw [fitsInt64_iff] at h
    rw [ne_eq, ← Int64.toInt_inj, Int64.toInt_ofInt_of_le h.1 h.2, Int64.toInt_minValue]
    omega
  rw [negatedOf?, if_neg hne, Int64.ofInt_neg]

/-- A number without a sign: digits, perhaps with a point and digits behind them. -/
structure Unsigned where
  whole : List Char
  fraction : Option (List Char)
  whole_ne_nil : whole ≠ []
  fraction_ne_nil : ∀ digits ∈ fraction, digits ≠ []
  isDigit : ∀ c ∈ whole ++ fraction.getD [], c.isDigit

namespace Unsigned

def characters (d : Unsigned) : List Char :=
  match d.fraction with
  | none => d.whole
  | some digits => d.whole ++ '.' :: digits

def text (d : Unsigned) : String := String.ofList d.characters

/-- A whole number as it is written. -/
def ofNat (n : Nat) : Unsigned where
  whole := Nat.toDigits 10 n
  fraction := none
  whole_ne_nil := Nat.toDigits_ne_nil
  fraction_ne_nil := by simp
  isDigit := by simpa using isDigit_toDigits n

/-- The number as a token, which carries its sign. -/
def token (d : Unsigned) (negative : Bool) : Except Complaint Token :=
  match d.fraction with
  | none => Token.ofInteger negative d.whole
  | some digits => .ok (Token.ofFraction negative d.whole digits)

/-- The literal that the number is behind a minus sign, unless it has more than 64 bits there. -/
def opposite? (d : Unsigned) : Option Value :=
  match d.fraction with
  | none =>
    let n := signedValue true d.whole
    if FitsInt64 n then some (.int (.ofInt n)) else none
  | some digits =>
    some (.float (.ofDecimal true ⟨digitsValue (d.whole ++ digits), -(digits.length : Int)⟩))

/-- Behind a minus sign the number is the least of 64 bits. -/
def IsLeast (d : Unsigned) : Prop :=
  d.fraction = none ∧ signedValue true d.whole = Int64.minValue.toInt

theorem exists_characters (d : Unsigned) : ∃ c cs, d.characters = c :: cs ∧ c.isDigit := by
  obtain ⟨c, cs, hwhole⟩ := List.exists_cons_of_ne_nil d.whole_ne_nil
  have hc : c.isDigit := d.isDigit c (by rw [hwhole]; exact List.mem_cons_self)
  unfold characters
  rw [hwhole]
  split
  · exact ⟨c, cs, rfl, hc⟩
  · exact ⟨c, _, List.cons_append, hc⟩

theorem readNumber (d : Unsigned) (negative : Bool) :
    Token.readNumber negative d.characters = (d.token negative).map (·, []) := by
  obtain ⟨whole, fraction, nonempty, hfraction, hdigit⟩ := d
  cases fraction with
  | none =>
    have hwhole : ∀ c ∈ whole, c.isDigit := fun c hc => hdigit c (List.mem_append_left _ hc)
    have hread := Token.readNumber_digits negative hwhole Apart.nil
    rwa [List.append_nil] at hread
  | some digits =>
    have hpositional : NumberStyle.IsPositional (whole ++ '.' :: digits) whole digits :=
      ⟨rfl, nonempty, hfraction digits rfl, hdigit⟩
    have hread := Token.readNumber_positional_append negative hpositional Apart.nil.isDigit_head
    rwa [List.append_nil] at hread

theorem lexes {d : Unsigned} {negative : Bool} {t : Token} (h : d.token negative = .ok t) :
    Lexes (signed negative d.characters) [t] := by
  have hread := d.readNumber negative
  obtain ⟨c, cs, hchars, hc⟩ := d.exists_characters
  rw [h, hchars] at hread
  rw [hchars]
  exact .number hc hread

theorem tokenizeFrom {d : Unsigned} {negative : Bool} {complaint : Complaint}
    (h : d.token negative = .error complaint) (position : Nat) :
    tokenizeFrom position (signed negative d.characters) = .error ⟨position, complaint⟩ := by
  have hread := d.readNumber negative
  obtain ⟨c, cs, hchars, hc⟩ := d.exists_characters
  rw [h, hchars] at hread
  rw [hchars]
  exact tokenizeFrom_signed hc hread position

/-! What becomes of the two spellings -/

theorem toList_attached (d : Unsigned) : ("-" ++ d.text).toList = signed true d.characters := by
  rw [text, String.toList_append]
  exact congrArg ('-' :: ·) String.toList_ofList

theorem toList_detached (d : Unsigned) : ("- " ++ d.text).toList = '-' :: ' ' :: d.characters := by
  rw [text, String.toList_append]
  exact congrArg ('-' :: ' ' :: ·) String.toList_ofList

theorem parse_attached {d : Unsigned} {t : Token} {v : Value} (h : d.token true = .ok t)
    (hv : Expr.literalOf? t = some v) : Expr.parse ("-" ++ d.text) = .ok (.literal v) := by
  refine Expr.parse_literal ?_ hv
  rw [d.toList_attached]
  exact lexes h

theorem parse_detached {d : Unsigned} {t : Token} {v : Value} (h : d.token false = .ok t)
    (hv : Expr.negatedOf? t = some v) : Expr.parse ("- " ++ d.text) = .ok (.literal v) := by
  have hlexes : Lexes ('-' :: ' ' :: d.characters) [.minus, t] :=
    .token (by decide) rfl (.blank (by decide) (lexes h))
  rw [← d.toList_detached] at hlexes
  exact Expr.parse_eq_ok_iff.mpr ⟨_, hlexes, (Expr.Derives.ofAtom (.negative hv)).chain_disjunction⟩

theorem parse_attached_error {d : Unsigned} {complaint : Complaint}
    (h : d.token true = .error complaint) : Expr.parse ("-" ++ d.text) = .error ⟨0, complaint⟩ := by
  refine Expr.parse_of_tokenize_error ?_
  rw [tokenize, d.toList_attached]
  exact tokenizeFrom h 0

theorem parse_detached_error {d : Unsigned} {complaint : Complaint}
    (h : d.token false = .error complaint) :
    Expr.parse ("- " ++ d.text) = .error ⟨2, complaint⟩ := by
  have hfront : tokenize "-" = .ok [⟨.minus, 0⟩, ⟨.eof, 1⟩] := by decide +kernel
  have hplace : Surrounds "-" " " "" :=
    { tokens := ⟨_, hfront⟩
      blanks := List.forall_mem_singleton.mpr (by decide)
      gapless := by decide
      behind := Apart.nil }
  have herror : tokenize ("-" ++ " " ++ d.text ++ "") = .error ⟨2, complaint⟩ :=
    hplace.tokenize fun position => by
      rw [text, String.toList_ofList]
      exact (List.append_nil d.characters).symm ▸ tokenizeFrom h position
  rw [String.append_empty] at herror
  exact Expr.parse_of_tokenize_error herror

/-! What the number is to either spelling -/

theorem token_true {d : Unsigned} {v : Value} (h : d.opposite? = some v) :
    ∃ t, d.token true = .ok t ∧ Expr.literalOf? t = some v := by
  unfold opposite? at h
  unfold token
  split at h
  · dsimp only at h
    split at h
    · next hfits =>
      cases h
      exact ⟨_, Token.ofInteger_of_fits hfits, rfl⟩
    · cases h
  · cases h
    exact ⟨_, rfl, rfl⟩

theorem token_false {d : Unsigned} {v : Value} (hleast : ¬d.IsLeast) (h : d.opposite? = some v) :
    ∃ t, d.token false = .ok t ∧ Expr.negatedOf? t = some v := by
  unfold opposite? at h
  unfold token
  split at h
  · next hnone =>
    dsimp only at h
    split at h
    · next hfits =>
      cases h
      have hpos : FitsInt64 (signedValue false d.whole) :=
        fitsInt64_of_neg (Int.natCast_nonneg _) hfits fun he => hleast ⟨hnone, he⟩
      exact ⟨_, Token.ofInteger_of_fits hpos, Expr.negatedOf?_ofInt (Int.natCast_nonneg _) hpos⟩
    · cases h
  · cases h
    exact ⟨_, rfl, congrArg (fun x => some (Value.float x)) (Binary64.neg_ofDecimal _ _)⟩

/-- A number that is too large behind a minus sign is too large without one. -/
theorem token_of_opposite?_none {d : Unsigned} (h : d.opposite? = none) (negative : Bool) :
    d.token negative =
      .error (.integerOutOfRange (String.ofList (signed negative d.characters))) := by
  unfold opposite? at h
  unfold token characters
  split at h
  · dsimp only at h
    split at h
    · cases h
    · next hfits =>
      refine Token.ofInteger_of_not_fits fun hn => ?_
      cases negative with
      | true => exact hfits hn
      | false => exact hfits (fitsInt64_neg (Int.natCast_nonneg _) hn)
  · cases h

theorem IsLeast.opposite? {d : Unsigned} (h : d.IsLeast) :
    d.opposite? = some (.int Int64.minValue) := by
  unfold Unsigned.opposite?
  rw [h.1]
  dsimp only
  rw [h.2]
  rfl

theorem IsLeast.token_false {d : Unsigned} (h : d.IsLeast) :
    d.token false = .error (.integerOutOfRange d.text) := by
  unfold token text characters
  rw [h.1]
  refine Token.ofInteger_of_not_fits fun hn => ?_
  exact absurd hn (not_fitsInt64_of_neg h.2)

end Unsigned

/-- With a blank behind the minus sign a number is the same literal as without one, and is refused
where that is. The one exception is the least number of 64 bits, whose digits are out of range before
their sign is looked at. -/
theorem parse_minus_blank (d : Unsigned) :
    (¬d.IsLeast → ∀ e, Expr.parse ("-" ++ d.text) = .ok e ↔ Expr.parse ("- " ++ d.text) = .ok e) ∧
    (∀ e, Expr.parse ("-" ++ d.text) = .ok e ↔ ∃ v, d.opposite? = some v ∧ e = .literal v) ∧
    (d.IsLeast → Expr.parse ("-" ++ d.text) = .ok (.literal (.int Int64.minValue)) ∧
      Expr.parse ("- " ++ d.text) = .error ⟨2, .integerOutOfRange d.text⟩) := by
  have hattached : ∀ v, d.opposite? = some v → Expr.parse ("-" ++ d.text) = .ok (.literal v) := by
    intro v hv
    obtain ⟨t, ht, hliteral⟩ := Unsigned.token_true hv
    exact Unsigned.parse_attached ht hliteral
  refine ⟨fun hleast e => ?_, fun e => ?_, fun hleast => ?_⟩
  · cases hv : d.opposite? with
    | none =>
      rw [Unsigned.parse_attached_error (Unsigned.token_of_opposite?_none hv true),
        Unsigned.parse_detached_error (Unsigned.token_of_opposite?_none hv false)]
      simp
    | some v =>
      obtain ⟨t, ht, hnegated⟩ := Unsigned.token_false hleast hv
      rw [hattached v hv, Unsigned.parse_detached ht hnegated]
  · cases hv : d.opposite? with
    | none =>
      rw [Unsigned.parse_attached_error (Unsigned.token_of_opposite?_none hv true)]
      simp
    | some v =>
      rw [hattached v hv]
      simp [eq_comm]
  · exact ⟨hattached _ hleast.opposite?, Unsigned.parse_detached_error hleast.token_false⟩

/-- The greatest number of 64 bits, and one more than that. -/
theorem parse_minus_blank_edges :
    let greatest : Unsigned := .ofNat 9223372036854775807
    let beyond : Unsigned := .ofNat 9223372036854775808
    (¬greatest.IsLeast ∧
      Expr.parse "- 9223372036854775807" = .ok (.literal (.int (-9223372036854775807)))) ∧
    beyond.IsLeast ∧
      Expr.parse "- 9223372036854775808" =
        .error ⟨2, .integerOutOfRange "9223372036854775808"⟩ := by
  intro greatest beyond
  have hgreatest : ¬greatest.IsLeast := fun h => absurd h.2 (by decide)
  have hbeyond : beyond.IsLeast := ⟨rfl, by decide⟩
  have hvalue : greatest.opposite? = some (.int (-9223372036854775807)) := rfl
  obtain ⟨hsame, hattached, -⟩ := parse_minus_blank greatest
  obtain ⟨-, -, hleast⟩ := parse_minus_blank beyond
  exact ⟨⟨hgreatest, (hsame hgreatest _).mp ((hattached _).mpr ⟨_, hvalue, rfl⟩)⟩, hbeyond,
    (hleast hbeyond).2⟩

/-- The least number of 64 bits is a literal only while nothing separates its sign from it. -/
theorem parse_minus_blank_least :
    Expr.parse "-9223372036854775808" = .ok (.literal (.int Int64.minValue)) ∧
      ∀ e, Expr.parse "- 9223372036854775808" ≠ .ok e := by
  have htokens : tokenize "- 9223372036854775808" =
      .error ⟨2, .integerOutOfRange "9223372036854775808"⟩ := by decide +kernel
  have herror := Expr.parse_of_tokenize_error htokens
  refine ⟨Expr.parse_literal (.integer Int64.minValue) rfl, fun e he => ?_⟩
  rw [herror] at he
  cases he

end RowQuery
