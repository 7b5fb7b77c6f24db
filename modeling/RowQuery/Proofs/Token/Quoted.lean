import RowQuery.Proofs.Token.Lexes
import RowQuery.Text.Quoted

/-!
# What is read between quote marks

Quoted text escapes two marks, the line ends and whatever else is concealed. The lexer knows the
escapes of the marks, of the line ends and of the tabulator; of any other it takes what follows the
backslash for characters of the string. So quoted text is always read as a string, and each
character of the quoted one is read as `Quoted.respell` says: as itself, or as the letters of its
escape. `Quoted.flatMap_respell_eq_iff` says which strings are read as themselves.

There is a text that is read back for every string, between quote marks of either kind
(`Quoted.enquote`). It has a backslash before each backslash and each such mark and every other
character as it is, line ends and control characters included, so the letters that mean something
else behind a backslash never get one.
-/

set_option autoImplicit false

namespace RowQuery
namespace Quoted

/-- What the reader makes of the text of a character between quote marks. -/
def respell (c : Char) : List Char :=
  match encodeChar c with
  | '\\' :: e :: rest => Token.unescape e :: rest
  | cs => cs

theorem digitChar_ordinary {n : Nat} (h : n < 16) :
    Nat.digitChar n ≠ '"' ∧ Nat.digitChar n ≠ '\\' := by
  revert n
  decide

theorem toDigits_ordinary (n : Nat) : ∀ c ∈ Nat.toDigits 16 n, c ≠ '"' ∧ c ≠ '\\' := by
  induction n using Nat.strongRecOn with
  | ind n ih =>
    rw [Nat.toDigits_eq_if (by decide)]
    split
    · next h =>
      intro c hc
      cases List.mem_singleton.mp hc
      exact digitChar_ordinary h
    · next h =>
      intro c hc
      rcases List.mem_append.mp hc with hc | hc
      · exact ih (n / 16) (by omega) c hc
      · cases List.mem_singleton.mp hc
        exact digitChar_ordinary (Nat.mod_lt n (by decide))

theorem readContent?_ordinary {cs : List Char} (h : ∀ c ∈ cs, c ≠ '"' ∧ c ≠ '\\')
    (rest : List Char) : Token.readContent? '"' (cs ++ rest) =
      (Token.readContent? '"' rest).map fun (s, after) => (cs ++ s, after) := by
  induction cs with
  | nil => simp
  | cons c cs ih =>
    obtain ⟨⟨hq, hb⟩, hcs⟩ := List.forall_mem_cons.mp h
    rw [List.cons_append, Token.readContent?_char hq hb, ih hcs, Option.map_map]
    rfl

/-- The text of a character between quote marks, and what is read there. -/
inductive Spelling (c : Char) : (text reading : List Char) → Prop where
  /-- The character itself. -/
  | shown (hq : c ≠ '"') (hb : c ≠ '\\') (hc : isConcealed c = false) : Spelling c [c] [c]
  /-- A backslash and a letter that stands for the character. -/
  | letter {e : Char} (he : Token.unescape e = c)
      (hc : isConcealed c → c = '\t' ∨ c = '\n' ∨ c = '\r') : Spelling c ['\\', e] [c]
  /-- An escape that is read as its letters. -/
  | lost {e : Char} {rest : List Char} (he : e = '0' ∨ e = 'u')
      (hrest : ∀ d ∈ rest, d ≠ '"' ∧ d ≠ '\\') (hc : isConcealed c) (ht : c ≠ '\t')
      (hn : c ≠ '\n') (hr : c ≠ '\r') : Spelling c ('\\' :: e :: rest) (e :: rest)

theorem spelling (c : Char) : Spelling c (encodeChar c) (respell c) := by
  unfold respell encodeChar
  split
  · exact .letter rfl fun h => absurd h (by decide)
  · exact .letter rfl fun h => absurd h (by decide)
  · exact .letter rfl fun _ => .inr (.inl rfl)
  · exact .letter rfl fun _ => .inr (.inr rfl)
  · exact .letter rfl fun _ => .inl rfl
  · exact .lost (.inl rfl) nofun (by decide) (by decide) (by decide) (by decide)
  · next hq hb hn hr ht _ =>
    by_cases hconcealed : isConcealed c
    · rw [if_pos hconcealed]
      have hrest : ∀ d ∈ '\x7b' :: (Nat.toDigits 16 c.toNat ++ ['\x7d']), d ≠ '"' ∧ d ≠ '\\' := by
        refine List.forall_mem_cons.mpr ⟨by decide, fun d hd => ?_⟩
        rcases List.mem_append.mp hd with hd | hd
        · exact toDigits_ordinary _ d hd
        · cases List.mem_singleton.mp hd
          decide
      exact .lost (.inr rfl) hrest hconcealed ht hn hr
    · rw [if_neg hconcealed]
      have hrespell : (match [c] with
          | '\\' :: e :: rest => Token.unescape e :: rest
          | cs => cs) = [c] := by split <;> simp_all
      rw [hrespell]
      exact .shown hq hb (Bool.eq_false_iff.mpr hconcealed)

namespace Spelling

variable {c : Char} {text reading : List Char}

theorem readContent? (h : Spelling c text reading) (rest : List Char) :
    Token.readContent? '"' (text ++ rest) =
      (Token.readContent? '"' rest).map fun (s, after) => (reading ++ s, after) := by
  cases h with
  | shown hq hb => exact Token.readContent?_char hq hb rest
  | letter he =>
    subst he
    exact Token.readContent?_escape (by decide) _ rest
  | @lost e tail he hrest =>
    have hletter : Token.unescape e = e := by rcases he with rfl | rfl <;> rfl
    rw [List.cons_append, List.cons_append, Token.readContent?_escape (by decide),
      readContent?_ordinary hrest, Option.map_map, hletter]
    rfl

theorem reading_ne_nil (h : Spelling c text reading) : reading ≠ [] := by
  cases h <;> exact List.cons_ne_nil _ _

theorem reading_eq_iff (h : Spelling c text reading) :
    reading = [c] ↔ (isConcealed c → c = '\t' ∨ c = '\n' ∨ c = '\r') := by
  cases h with
  | shown _ _ hc => exact iff_of_true rfl fun h => absurd h (Bool.eq_false_iff.mp hc)
  | letter _ hc => exact iff_of_true rfl hc
  | @lost e tail he _ hc ht hn hr =>
    have hshown : isConcealed e = false := by rcases he with rfl | rfl <;> decide
    refine iff_of_false (fun h => ?_) fun h => ?_
    · rw [(List.cons.inj h).1, hc] at hshown
      cases hshown
    rcases h hc with h | h | h
    · exact ht h
    · exact hn h
    · exact hr h

end Spelling

theorem readContent?_encode (cs : List Char) :
    Token.readContent? '"' (encode cs ++ ['"']) = some (cs.flatMap respell, []) := by
  induction cs with
  | nil => exact Token.readContent?_mark '"' []
  | cons c cs ih =>
    rw [encode, List.flatMap_cons, List.append_assoc, ← encode, (spelling c).readContent?, ih]
    rfl

theorem length_le_flatMap_respell (cs : List Char) : cs.length ≤ (cs.flatMap respell).length := by
  induction cs with
  | nil => exact Nat.le_refl 0
  | cons c cs ih =>
    have hpos := List.length_pos_iff.mpr (spelling c).reading_ne_nil
    rw [List.flatMap_cons, List.length_append, List.length_cons]
    omega

/-- A string is read as itself if each of its characters is. -/
theorem flatMap_respell_eq_iff (cs : List Char) :
    cs.flatMap respell = cs ↔ ∀ c ∈ cs, isConcealed c → c = '\t' ∨ c = '\n' ∨ c = '\r' := by
  induction cs with
  | nil => exact iff_of_true rfl (List.forall_mem_nil _)
  | cons c cs ih =>
    have hcons : (c :: cs).flatMap respell = c :: cs ↔
        respell c = [c] ∧ cs.flatMap respell = cs := by
      rw [List.flatMap_cons]
      constructor
      · intro h
        -- what comes after takes a place for each character at least, so one is left for this one
        have hone : (respell c).length = [c].length := by
          have hall := congrArg List.length h
          have hrest := length_le_flatMap_respell cs
          have hpos := List.length_pos_iff.mpr (spelling c).reading_ne_nil
          rw [List.length_append, List.length_cons] at hall
          rw [List.length_singleton]
          omega
        exact List.append_inj h hone
      · rintro ⟨hc, hcs⟩
        rw [hc, hcs]
        rfl
    rw [hcons, (spelling c).reading_eq_iff, List.forall_mem_cons]
    exact and_congr_right' ih

end Quoted

/-- A quoted string is always one token. -/
theorem Lexes.quote_respell (s : String) : Lexes (RowQuery.quote s).toList
    [.string (String.ofList (s.toList.flatMap Quoted.respell))] := by
  rw [RowQuery.quote, String.toList_ofList]
  refine .token (by decide) ?_ .nil
  unfold Token.read
  rw [if_pos (by decide), Token.readString, Quoted.readContent?_encode]
  rfl

/-! ## The text that is always read back -/

namespace Quoted

/-- A character between the quote marks `q`. -/
def escape (q c : Char) : List Char := if c = '\\' ∨ c = q then ['\\', c] else [c]

/-- A string between the quote marks `q`. -/
def enquote (q : Char) (s : String) : String :=
  String.ofList (q :: (s.toList.flatMap (escape q) ++ [q]))

example : enquote '\'' "it's\n\\n" = "'it\\'s\n\\\\n'" := by decide

variable {q : Char}

theorem unescape_of_escaped (hq : q = '"' ∨ q = '\'') {c : Char} (hc : c = '\\' ∨ c = q) :
    Token.unescape c = c := by
  rcases hc with rfl | rfl
  · rfl
  · rcases hq with rfl | rfl <;> rfl

theorem readContent?_escape (hq : q = '"' ∨ q = '\'') (c : Char) (rest : List Char) :
    Token.readContent? q (escape q c ++ rest) =
      (Token.readContent? q rest).map fun (s, after) => (c :: s, after) := by
  unfold escape
  split
  · next hc =>
    have hslash : '\\' ≠ q := by rcases hq with rfl | rfl <;> decide
    have hread := Token.readContent?_escape hslash c rest
    rwa [unescape_of_escaped hq hc] at hread
  · next hc =>
    obtain ⟨hslash, hmark⟩ := not_or.mp hc
    exact Token.readContent?_char hmark hslash rest

theorem readContent?_flatMap_escape (hq : q = '"' ∨ q = '\'') (cs : List Char) :
    Token.readContent? q (cs.flatMap (escape q) ++ [q]) = some (cs, []) := by
  induction cs with
  | nil => exact Token.readContent?_mark q []
  | cons c cs ih =>
    rw [List.flatMap_cons, List.append_assoc, readContent?_escape hq, ih]
    rfl

/-- Between quote marks a string is read whole. -/
theorem read_escaped (hq : q = '"' ∨ q = '\'') (s : String) :
    Token.read q (s.toList.flatMap (escape q) ++ [q]) = .ok (.string s, []) := by
  unfold Token.read
  rw [if_pos hq, Token.readString, readContent?_flatMap_escape hq]
  dsimp only [Token.wordHere?]
  rw [String.ofList_toList]

end Quoted

end RowQuery
