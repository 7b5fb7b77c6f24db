import RowQuery.Proofs.Query.Spelling
import RowQuery.Query.Builder

/-!
# Dotted text, cut up and parsed

`Expr.property` never parses: it turns every `?.` of the text into `.?`, cuts the text at its dots
and takes a question mark off the front of each part. The parser reads a token for each dot and a
word behind it. Between them they agree on the shape of the path and on which segments are optional,
however the dots are written, because no word has a dot or a question mark in it.

They differ on one thing, which is the name a word gives: a keyword's token has only the lower-case
spelling of it left.
-/

set_option autoImplicit false

namespace RowQuery

/-! ## Dots as they are written -/

/-- The three ways to write the dot before a segment: `.`, `.?` and `?.`. -/
inductive Dot where
  | plain | dotQuestion | questionDot
deriving DecidableEq

namespace Dot

def characters : Dot → List Char
  | .plain => ['.']
  | .dotQuestion => ['.', '?']
  | .questionDot => ['?', '.']

def token : Dot → Token
  | .plain => .dot
  | .dotQuestion => .dotQuestion
  | .questionDot => .questionDot

def optional : Dot → Bool
  | .plain => false
  | .dotQuestion => true
  | .questionDot => true

theorem dotOf?_token (d : Dot) : Expr.dotOf? d.token = some d.optional := by
  cases d <;> rfl

/-- The dot behind a word ends it. -/
theorem isWordPart_head (d : Dot) (rest : List Char) :
    ∀ c ∈ (d.characters ++ rest).head?, isWordPart c = false := by
  intro c hc
  cases d with
  | plain | dotQuestion =>
    obtain rfl : '.' = c := by simpa [characters] using hc
    decide
  | questionDot =>
    obtain rfl : '?' = c := by simpa [characters] using hc
    decide

end Dot

/-- A dot and the word behind it. -/
structure DottedWord where
  dot : Dot
  word : String
  isWord : IsWord word.toList

namespace DottedWord

def characters (s : DottedWord) : List Char := s.dot.characters ++ s.word.toList

/-- The segment, under the name that is made of the word. -/
def segment (name : String → String) (s : DottedWord) : Segment := ⟨name s.word, s.dot.optional⟩

/-- What is between this dot and the next one when every dot comes first. -/
def part (s : DottedWord) : List Char :=
  if s.dot.optional then '?' :: s.word.toList else s.word.toList

end DottedWord

/-- A name and dotted words behind it. -/
structure DottedText where
  base : String
  segments : List DottedWord
  isName : IsName base

namespace DottedText

def text (p : DottedText) : String :=
  String.ofList (p.base.toList ++ p.segments.flatMap DottedWord.characters)

/-- The path of the segments, under the names that are made of the words. -/
def path (name : String → String) (p : DottedText) : Expr :=
  if p.segments.isEmpty then .variable p.base
  else .path (.variable p.base) (p.segments.map (DottedWord.segment name))

theorem foldl_segment (name : String → String) (p : DottedText) :
    (p.segments.map (DottedWord.segment name)).foldl Expr.segment (.variable p.base) =
      p.path name := by
  unfold path
  cases hsegments : p.segments with
  | nil => rfl
  | cons s rest => exact Expr.foldl_segment (by simp) (by simp)

/-- A path shows the names that are made of its words. -/
theorem path_eq_path_iff (p : DottedText) {f g : String → String} :
    p.path f = p.path g ↔ ∀ s ∈ p.segments, f s.word = g s.word := by
  unfold path
  cases hsegments : p.segments with
  | nil => simp
  | cons s rest => simp [DottedWord.segment]

end DottedText

/-! ## Cutting the text -/

theorem IsWord.not_mem {word : List Char} (h : IsWord word) {c : Char}
    (hc : isWordPart c = false) : c ∉ word := fun hmem => by
  rw [h.forall_isWordPart c hmem] at hc
  cases hc

namespace Expr

theorem turnMarks_append {word : List Char} (h : '?' ∉ word) (rest : List Char) :
    turnMarks (word ++ rest) = word ++ turnMarks rest := by
  induction word with
  | nil => rfl
  | cons c cs ih =>
    obtain ⟨hc, hcs⟩ := List.ne_and_not_mem_of_not_mem_cons h
    rw [List.cons_append, turnMarks, ih hcs, List.cons_append]
    rintro _ rfl
    exact absurd rfl hc

theorem splitDots_of_not_mem {part : List Char} (h : '.' ∉ part) : splitDots part = [part] := by
  induction part with
  | nil => rfl
  | cons c cs ih =>
    obtain ⟨hc, hcs⟩ := List.ne_and_not_mem_of_not_mem_cons h
    rw [splitDots, ih hcs]
    exact hc.symm

theorem splitDots_append {part : List Char} (h : '.' ∉ part) (rest : List Char) :
    splitDots (part ++ '.' :: rest) = part :: splitDots rest := by
  induction part with
  | nil => rfl
  | cons c cs ih =>
    obtain ⟨hc, hcs⟩ := List.ne_and_not_mem_of_not_mem_cons h
    rw [List.cons_append, splitDots, ih hcs]
    exact hc.symm

theorem splitDots_parts {parts : List (List Char)} (h : ∀ part ∈ parts, '.' ∉ part)
    {base : List Char} (hbase : '.' ∉ base) :
    splitDots (base ++ parts.flatMap ('.' :: ·)) = base :: parts := by
  induction parts generalizing base with
  | nil => rw [List.flatMap_nil, List.append_nil, splitDots_of_not_mem hbase]
  | cons part rest ih =>
    obtain ⟨hpart, hrest⟩ := List.forall_mem_cons.mp h
    rw [List.flatMap_cons, List.cons_append, splitDots_append hbase, ih hrest hpart]

theorem segmentOfPart_of_not_mem {part : List Char} (h : '?' ∉ part) :
    segmentOfPart part = ⟨String.ofList part, false⟩ := by
  unfold segmentOfPart
  split
  · exact absurd List.mem_cons_self h
  · rfl

end Expr

namespace DottedWord

variable (s : DottedWord)

theorem dot_not_mem : '.' ∉ s.word.toList := s.isWord.not_mem (by decide)

theorem mark_not_mem : '?' ∉ s.word.toList := s.isWord.not_mem (by decide)

theorem dot_not_mem_part : '.' ∉ s.part := by
  unfold part
  split
  · exact List.not_mem_cons_of_ne_of_not_mem (by decide) s.dot_not_mem
  · exact s.dot_not_mem

theorem exists_head : ∃ c cs, s.word.toList = c :: cs ∧ c ≠ '.' ∧ c ≠ '?' := by
  have hdot := s.dot_not_mem
  have hmark := s.mark_not_mem
  obtain ⟨c, cs, hchars⟩ := List.exists_cons_of_ne_nil s.isWord.ne_nil
  rw [hchars] at hdot hmark
  exact ⟨c, cs, hchars, (List.ne_of_not_mem_cons hdot).symm, (List.ne_of_not_mem_cons hmark).symm⟩

/-- Once the marks are turned, every dot comes before its mark. -/
theorem turnMarks_characters (rest : List Char) :
    Expr.turnMarks (s.characters ++ rest) = '.' :: (s.part ++ Expr.turnMarks rest) := by
  have hword := Expr.turnMarks_append s.mark_not_mem rest
  unfold characters part
  cases s.dot with
  | plain =>
    rw [Dot.optional, if_neg (by simp), ← hword]
    rfl
  | dotQuestion =>
    have hkept : Expr.turnMarks ('?' :: (s.word.toList ++ rest)) =
        '?' :: Expr.turnMarks (s.word.toList ++ rest) := by
      obtain ⟨c, cs, hchars, hdot, -⟩ := s.exists_head
      rw [hchars, List.cons_append, Expr.turnMarks]
      simpa using hdot
    rw [Dot.optional, if_pos rfl, List.cons_append, ← hword, ← hkept]
    rfl
  | questionDot =>
    rw [Dot.optional, if_pos rfl, List.cons_append, ← hword]
    rfl

theorem segmentOfPart_part : Expr.segmentOfPart s.part = s.segment id := by
  unfold part segment
  cases s.dot.optional with
  | false =>
    rw [if_neg (by simp), Expr.segmentOfPart_of_not_mem s.mark_not_mem, String.ofList_toList, id]
  | true => rw [if_pos rfl, Expr.segmentOfPart, String.ofList_toList, id]

end DottedWord

namespace DottedText

variable (p : DottedText)

theorem turnMarks_segments (segments : List DottedWord) :
    Expr.turnMarks (segments.flatMap DottedWord.characters) =
      (segments.map DottedWord.part).flatMap ('.' :: ·) := by
  induction segments with
  | nil => rfl
  | cons s rest ih =>
    rw [List.flatMap_cons, s.turnMarks_characters, ih, List.map_cons, List.flatMap_cons]
    rfl

theorem splitDots_text : Expr.splitDots (Expr.turnMarks p.text.toList) =
    p.base.toList :: p.segments.map DottedWord.part := by
  have hbase := p.isName.isWord
  rw [text, String.toList_ofList, Expr.turnMarks_append (hbase.not_mem (by decide)),
    turnMarks_segments]
  refine Expr.splitDots_parts (fun part hpart => ?_) (hbase.not_mem (by decide))
  obtain ⟨s, -, rfl⟩ := List.mem_map.mp hpart
  exact s.dot_not_mem_part

/-- Cutting the text up gives the segments under the words as they are spelled. -/
theorem property_eq : Expr.property p.text = p.path id := by
  unfold Expr.property
  rw [p.splitDots_text, ← p.foldl_segment]
  dsimp only
  rw [String.ofList_toList, List.foldl_map, List.foldl_map]
  simp only [DottedWord.segmentOfPart_part]

end DottedText

/-! ## Reading the text -/

namespace DottedWord

variable (s : DottedWord)

def tokens : List Token := [s.dot.token, Token.ofWord s.word.toList]

theorem lexes_append {rest : List Char} {ts : List Token}
    (hr : ∀ c ∈ rest.head?, isWordPart c = false) (h : Lexes rest ts) :
    Lexes (s.characters ++ rest) (s.tokens ++ ts) := by
  have hword := Lexes.word_append s.isWord hr h
  unfold characters tokens
  cases s.dot with
  | plain =>
    obtain ⟨c, cs, hchars, -, hmark⟩ := s.exists_head
    rw [hchars] at hword ⊢
    exact .token (by decide) (Token.read_dot hmark _) hword
  | dotQuestion => exact .token (by decide) rfl hword
  | questionDot => exact .token (by decide) rfl hword

end DottedWord

namespace DottedText

variable (p : DottedText)

/-- No character of the segments goes on with the word before them. -/
theorem isWordPart_head_segments (segments : List DottedWord) :
    ∀ c ∈ (segments.flatMap DottedWord.characters).head?, isWordPart c = false := by
  cases segments with
  | nil => simp
  | cons s rest =>
    rw [List.flatMap_cons, DottedWord.characters, List.append_assoc]
    exact s.dot.isWordPart_head _

theorem lexes_segments (segments : List DottedWord) :
    Lexes (segments.flatMap DottedWord.characters) (segments.flatMap DottedWord.tokens) := by
  induction segments with
  | nil => exact .nil
  | cons s rest ih => exact s.lexes_append (isWordPart_head_segments rest) ih

theorem derives_segments (segments : List DottedWord) {ts : List Token} {e : Expr}
    (h : Expr.Derives .chain ts e) :
    Expr.Derives .chain (ts ++ segments.flatMap DottedWord.tokens)
      ((segments.map (DottedWord.segment nameOfWord)).foldl Expr.segment e) := by
  induction segments generalizing ts e with
  | nil => rwa [List.flatMap_nil, List.append_nil]
  | cons s rest ih =>
    rw [List.flatMap_cons, ← List.append_assoc]
    exact ih (.property h s.dot.dotOf?_token (fieldName?_ofWord s.word))

/-- Parsing the text gives the segments under the names that their tokens have left. -/
theorem parse_eq : Expr.parse p.text = .ok (p.path nameOfWord) := by
  have hbase : Expr.Derives .chain [Token.ofWord p.base.toList] (.variable p.base) := by
    rw [Token.ofWord, p.isName.noKeyword, String.ofList_toList]
    exact .ofAtom (.name p.base)
  rw [← p.foldl_segment]
  refine Expr.parse_eq_ok_iff.mpr ⟨_, ?_, (derives_segments p.segments hbase).chain_disjunction⟩
  rw [text, String.toList_ofList]
  exact Lexes.word_append p.isName.isWord (isWordPart_head_segments p.segments)
    (lexes_segments p.segments)

end DottedText

/-- A builder that is given dotted text makes the path that the text is parsed as, exactly when every
word in it is a name or a keyword in lower case. -/
theorem parse_eq_property_iff (p : DottedText) :
    (Expr.parse p.text = .ok (Expr.property p.text) ↔ ∀ s ∈ p.segments, IsFieldName s.word) ∧
      Expr.property p.text = p.path id := by
  refine ⟨?_, p.property_eq⟩
  rw [p.parse_eq, p.property_eq, Except.ok.injEq, p.path_eq_path_iff]
  exact forall₂_congr fun s _ => nameOfWord_eq_iff s.isWord

/-- All three dots in one path, with a keyword among its words. -/
theorem parse_eq_property_mixed :
    let p : DottedText := ⟨"a", [⟨.questionDot, "b", by decide⟩, ⟨.dotQuestion, "from", by decide⟩,
      ⟨.plain, "c", by decide⟩], ⟨by decide, by decide⟩⟩
    p.text = "a?.b.?from.c" ∧ (∀ s ∈ p.segments, IsFieldName s.word) ∧
      Expr.parse p.text = .ok (Expr.property p.text) ∧
      Expr.property p.text =
        .path (.variable "a") [⟨"b", true⟩, ⟨"from", true⟩, ⟨"c", false⟩] := by
  intro p
  obtain ⟨hparse, hproperty⟩ := parse_eq_property_iff p
  have hwords : ∀ s ∈ p.segments, IsFieldName s.word := by
    intro s hs
    simp only [p, List.mem_cons, List.not_mem_nil, or_false] at hs
    rcases hs with rfl | rfl | rfl
    · exact .inl ⟨by decide, by decide⟩
    · exact .inr ⟨.from', rfl⟩
    · exact .inl ⟨by decide, by decide⟩
  exact ⟨by decide, hwords, hparse.mpr hwords, hproperty⟩

end RowQuery
