import RowQuery.Number.Style
import RowQuery.Proofs.Number.Shortest

/-!
# Positional text reads back

The layout of a literal puts a point into the digits of the shortest decimal and may write zeros
around them. The digits before and after the point, read as a decimal again, have the same value
(`exists_layPositional`), and so they read as the same double.
-/

set_option autoImplicit false

namespace RowQuery

/-! ## Values of digits -/

theorem digitsValue_eq (digits : List Char) : digitsValue digits = Nat.ofDigitChars 10 digits 0 := by
  rw [Nat.ofDigitChars_eq_foldl]
  unfold digitsValue
  congr 1
  funext n c
  rw [Nat.mul_comm]

theorem digitsValue_toDigits (n : Nat) : digitsValue (Nat.toDigits 10 n) = n := by
  rw [digitsValue_eq, Nat.ofDigitChars_ten_toDigits]

theorem digitsValue_append_zeros (digits : List Char) (n : Nat) :
    digitsValue (digits ++ List.replicate n '0') = digitsValue digits * 10 ^ n := by
  rw [digitsValue_eq, digitsValue_eq, Nat.ofDigitChars_append, Nat.ofDigitChars_replicate_zero,
    Nat.mul_comm]

theorem digitsValue_zeros_append (n : Nat) (digits : List Char) :
    digitsValue (List.replicate n '0' ++ digits) = digitsValue digits := by
  rw [digitsValue_eq, digitsValue_eq, Nat.ofDigitChars_append, Nat.ofDigitChars_replicate_zero,
    Nat.mul_zero]

theorem isDigit_toDigits (n : Nat) : ∀ c ∈ Nat.toDigits 10 n, c.isDigit :=
  fun _ hc => Nat.isDigit_of_mem_toDigits (by decide) (by decide) hc

theorem isDigit_zeros (n : Nat) : ∀ c ∈ List.replicate n '0', c.isDigit := by
  intro c hc
  rw [List.eq_of_mem_replicate hc]
  rfl

namespace NumberStyle

/-- Digits on both sides of a point. -/
structure IsPositional (text whole fraction : List Char) : Prop where
  text_eq : text = whole ++ '.' :: fraction
  whole_ne_nil : whole ≠ []
  fraction_ne_nil : fraction ≠ []
  isDigit : ∀ c ∈ whole ++ fraction, c.isDigit

/-- The layout of a literal shows the decimal, perhaps with zeros after it. -/
theorem exists_layPositional (d : Decimal) : ∃ (whole fraction : List Char) (n : Nat),
    IsPositional (literal.layPositional d).toList whole fraction ∧
      digitsValue (whole ++ fraction) = d.digits * 10 ^ n ∧
      d.exponent = -(fraction.length : Int) + n := by
  obtain ⟨value, exponent⟩ := d
  have hdigits := isDigit_toDigits value
  have hne : Nat.toDigits 10 value ≠ [] := Nat.toDigits_ne_nil
  unfold layPositional
  cases exponent with
  | ofNat e =>
    refine ⟨Nat.toDigits 10 value ++ List.replicate e '0', ['0'], e + 1, ⟨?_, ?_, ?_, ?_⟩, ?_, ?_⟩
    · show (String.ofList (Nat.toDigits 10 value) ++ String.ofList (List.replicate e '0') ++
        ".0").toList = _
      simp only [String.toList_append, String.toList_ofList]
      rfl
    · simp [hne]
    · simp
    · intro c hc
      rcases List.mem_append.mp hc with hc | hc
      · rcases List.mem_append.mp hc with hc | hc
        · exact hdigits c hc
        · exact isDigit_zeros e c hc
      · obtain rfl := List.mem_singleton.mp hc
        rfl
    · rw [List.append_assoc, ← List.replicate_succ', digitsValue_append_zeros, digitsValue_toDigits]
    · simp
  | negSucc e =>
    dsimp only
    split
    next hlt =>
      refine ⟨(Nat.toDigits 10 value).take ((Nat.toDigits 10 value).length - (e + 1)),
        (Nat.toDigits 10 value).drop ((Nat.toDigits 10 value).length - (e + 1)), 0,
        ⟨?_, ?_, ?_, ?_⟩, ?_, ?_⟩
      · simp
      · simp only [ne_eq, List.take_eq_nil_iff, hne, or_false]
        omega
      · simp only [ne_eq, List.drop_eq_nil_iff]
        omega
      · rw [List.take_append_drop]
        exact hdigits
      · rw [List.take_append_drop, digitsValue_toDigits, pow_zero, Nat.mul_one]
      · rw [List.length_drop]
        omega
    next hge =>
      refine ⟨['0'], List.replicate (e + 1 - (Nat.toDigits 10 value).length) '0' ++
        Nat.toDigits 10 value, 0, ⟨?_, ?_, ?_, ?_⟩, ?_, ?_⟩
      · show ("0." ++ String.ofList (List.replicate (e + 1 - (Nat.toDigits 10 value).length) '0') ++
          String.ofList (Nat.toDigits 10 value)).toList = _
        simp only [String.toList_append, String.toList_ofList]
        rfl
      · simp
      · simp [hne]
      · intro c hc
        rcases List.mem_append.mp hc with hc | hc
        · obtain rfl := List.mem_singleton.mp hc
          rfl
        · rcases List.mem_append.mp hc with hc | hc
          · exact isDigit_zeros _ c hc
          · exact hdigits c hc
      · rw [← List.append_assoc, List.singleton_append, ← List.replicate_succ,
          digitsValue_zeros_append, digitsValue_toDigits, pow_zero, Nat.mul_one]
      · rw [List.length_append, List.length_replicate]
        omega

end NumberStyle

/-- A finite double is the nearest to its shortest decimal, zeros after it or not. -/
theorem Finite64.ofDecimal_shortest {tie : Tie} {x : Finite64} {value n : Nat} {exponent : Int}
    (hvalue : value = (x.shortest tie).digits * 10 ^ n)
    (hexp : (x.shortest tie).exponent = exponent + n) :
    Binary64.ofDecimal x.negative ⟨value, exponent⟩ = .finite x := by
  have hback := readsBack_shortest tie x
  generalize x.shortest tie = d at *
  obtain ⟨digits, exponent'⟩ := d
  dsimp only at hvalue hexp
  subst hvalue hexp
  exact (readsBack_shift_iff.mpr hback).ofDecimal_eq

end RowQuery
