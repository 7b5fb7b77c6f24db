import RowQuery.Number.Decimal
import RowQuery.ParseError
import RowQuery.Text.Blank
import RowQuery.Text.Letter
import RowQuery.Text.Numeral

/-!
# `tokenize` — from characters to tokens

Each token is the longest one that starts at its place. `Token.read` takes one token off the head
of the text and says what is left; `tokenize` repeats it, skipping blanks, and ends the list with
`Token.eof` at the length of the text. Every token takes at least one character
(`Token.read_length_lt`), so the repetition ends.

A number or a string must not run into a word: `5select` is refused rather than read as two
tokens.
-/

set_option autoImplicit false

namespace RowQuery

def isWordStart (c : Char) : Bool := isLetter c || c == '_'

def isWordPart (c : Char) : Bool := isLetter c || isNumeral c || c == '_'

namespace Token

/-! ## Words, numbers, strings -/

/-- A keyword if the word spells one, else an identifier. -/
def ofWord (word : List Char) : Token :=
  match Keyword.ofWord? word with
  | some k => .keyword k
  | none => .identifier (String.ofList word)

def wordHere? : List Char → Option (List Char)
  | [] => none
  | c :: rest => if isWordStart c then some (c :: rest.takeWhile isWordPart) else none

/-- The integer token of these digits, unless it does not fit 64 bits. -/
def ofInteger (negative : Bool) (digits : List Char) : Except Complaint Token :=
  let n : Int := if negative then -(digitsValue digits : Int) else digitsValue digits
  if Int64.minValue.toInt ≤ n && n ≤ Int64.maxValue.toInt then .ok (.integer (.ofInt n))
  else .error (.integerOutOfRange (String.ofList (if negative then '-' :: digits else digits)))

/-- The float token of these digits before and after the point. -/
def ofFraction (negative : Bool) (whole fraction : List Char) : Token :=
  .float (.ofDecimal negative ⟨digitsValue (whole ++ fraction), -(fraction.length : Int)⟩)

/-- The digits of a fraction, if the text goes on with a point and a digit. -/
def fractionHere? : List Char → Option (List Char)
  | '.' :: c :: rest => if c.isDigit then some ((c :: rest).takeWhile Char.isDigit) else none
  | _ => none

/-- A number whose first digit is the head of `cs`, after a minus sign if `negative`. -/
def readNumber (negative : Bool) (cs : List Char) : Except Complaint (Token × List Char) :=
  let whole := cs.takeWhile Char.isDigit
  let rest := cs.dropWhile Char.isDigit
  let signed (text : List Char) : String :=
    String.ofList (if negative then '-' :: text else text)
  match fractionHere? rest with
  | some fraction =>
    let rest := rest.drop (fraction.length + 1)
    match wordHere? rest with
    | some word =>
      .error (.wordAfterNumber (signed (whole ++ '.' :: fraction)) (String.ofList word))
    | none => .ok (ofFraction negative whole fraction, rest)
  | none =>
    match wordHere? rest with
    | some word => .error (.wordAfterNumber (signed whole) (String.ofList word))
    | none => (ofInteger negative whole).map (·, rest)

/-- The character that a backslash and this one stand for. -/
def unescape (c : Char) : Char :=
  match c with
  | 'n' => '\n'
  | 't' => '\t'
  | 'r' => '\r'
  | c => c

/-- The content of a string up to its closing quote mark, and what follows the mark; none when it
is never closed. -/
def readContent? (quoteMark : Char) : List Char → Option (List Char × List Char)
  | [] => none
  | c :: rest =>
    if c = quoteMark then some ([], rest)
    else if c = '\\' then
      match rest with
      | [] => none
      | e :: rest => (readContent? quoteMark rest).map fun (s, after) => (unescape e :: s, after)
    else (readContent? quoteMark rest).map fun (s, after) => (c :: s, after)

/-- A string whose opening quote mark has been taken. -/
def readString (quoteMark : Char) (cs : List Char) : Except Complaint (Token × List Char) :=
  match readContent? quoteMark cs with
  | none => .error .unterminatedString
  | some (content, rest) =>
    match wordHere? rest with
    | some word => .error (.wordAfterString quoteMark (String.ofList content) (String.ofList word))
    | none => .ok (.string (String.ofList content), rest)

/-! ## One token -/

/-- One token off the text `c :: rest`, whose head is no blank. -/
def read (c : Char) (rest : List Char) : Except Complaint (Token × List Char) :=
  if c = '"' ∨ c = '\'' then readString c rest
  else if c.isDigit then readNumber false (c :: rest)
  else if isWordStart c then
    .ok (ofWord (c :: rest.takeWhile isWordPart), rest.dropWhile isWordPart)
  else match c, rest with
    | '-', d :: _ => if d.isDigit then readNumber true rest else .ok (.minus, rest)
    | '-', [] => .ok (.minus, [])
    | '=', '=' :: rest => .ok (.comparison .equal, rest)
    | '=', rest => .ok (.assign, rest)
    | '!', '=' :: rest => .ok (.comparison .notEqual, rest)
    | '!', _ => .error .loneBang
    | '<', '=' :: rest => .ok (.comparison .lessEqual, rest)
    | '<', rest => .ok (.comparison .less, rest)
    | '>', '=' :: rest => .ok (.comparison .greaterEqual, rest)
    | '>', rest => .ok (.comparison .greater, rest)
    | '+', rest => .ok (.plus, rest)
    | '.', '?' :: rest => .ok (.dotQuestion, rest)
    | '.', rest => .ok (.dot, rest)
    | '?', '.' :: rest => .ok (.questionDot, rest)
    | ',', rest => .ok (.comma, rest)
    | '\x7b', rest => .ok (.leftBrace, rest)
    | '\x7d', rest => .ok (.rightBrace, rest)
    | '(', rest => .ok (.leftParen, rest)
    | ')', rest => .ok (.rightParen, rest)
    | c, _ => .error (.strayCharacter c)

/-! ## Tokens take characters -/

theorem readContent?_length_lt {q : Char} {cs s rest : List Char}
    (h : readContent? q cs = some (s, rest)) : rest.length < cs.length := by
  fun_induction readContent? q cs generalizing s with
  | case1 => simp at h
  | case2 => simp_all
  | case3 => simp at h
  | case4 _ _ _ ih =>
    obtain ⟨_, hr, he⟩ := Option.map_eq_some_iff.1 h
    cases he
    have := ih hr
    simp only [List.length_cons]; omega
  | case5 _ _ _ _ ih =>
    obtain ⟨_, hr, he⟩ := Option.map_eq_some_iff.1 h
    cases he
    have := ih hr
    simp only [List.length_cons]; omega

theorem readString_length_lt {q : Char} {cs rest : List Char} {t : Token}
    (h : readString q cs = .ok (t, rest)) : rest.length < cs.length := by
  unfold readString at h
  split at h
  · cases h
  · next hc =>
    split at h
    · cases h
    · cases h; exact readContent?_length_lt hc

theorem readNumber_length_lt {negative : Bool} {c : Char} {cs rest : List Char} {t : Token}
    (hc : c.isDigit) (h : readNumber negative (c :: cs) = .ok (t, rest)) :
    rest.length < (c :: cs).length := by
  have hd : ((c :: cs).dropWhile Char.isDigit).length < (c :: cs).length := by
    have := (List.dropWhile_sublist Char.isDigit (l := cs)).length_le
    simp only [List.dropWhile_cons, hc, if_true, List.length_cons]; omega
  unfold readNumber at h
  simp only at h
  split at h
  · split at h
    · cases h
    · cases h
      simp only [List.length_drop]; omega
  · split at h
    · cases h
    · simp only [Except.map] at h
      split at h
      · cases h
      · cases h; exact hd

/-- A token takes at least one character off the text. -/
theorem read_length_lt {c : Char} {cs rest : List Char} {t : Token}
    (h : read c cs = .ok (t, rest)) : rest.length < (c :: cs).length := by
  unfold read at h
  split at h
  · have := readString_length_lt h
    simp only [List.length_cons]; omega
  · split at h
    · exact readNumber_length_lt (by assumption) h
    · split at h
      · cases h
        have := (List.dropWhile_sublist isWordPart (l := cs)).length_le
        simp only [List.length_cons]; omega
      · split at h
        case h_1 d _ =>
          split at h
          · have := readNumber_length_lt (by assumption) h
            simp only [List.length_cons] at *; omega
          · cases h; simp
        all_goals (cases h <;> simp only [List.length_cons] <;> omega)

end Token

/-! ## All tokens -/

/-- The tokens of the text `cs`, which starts at `position`. -/
def tokenizeFrom (position : Nat) (cs : List Char) : Except ParseError (List Lexeme) :=
  match cs with
  | [] => .ok [⟨.eof, position⟩]
  | c :: rest =>
    if isBlank c then tokenizeFrom (position + 1) rest
    else match _h : Token.read c rest with
      | .error complaint => .error ⟨position, complaint⟩
      | .ok (token, after) => do
        let taken := (c :: rest).length - after.length
        return ⟨token, position⟩ :: (← tokenizeFrom (position + taken) after)
termination_by cs.length
decreasing_by
  · simp
  · exact Token.read_length_lt ‹_›

/-- The tokens of a text, each with its position; the last one is `Token.eof`. -/
def tokenize (text : String) : Except ParseError (List Lexeme) :=
  tokenizeFrom 0 text.toList

end RowQuery
