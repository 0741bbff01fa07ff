import Mathlib.Data.List.DropRight

/-!
# Decimal numerals

`Nat.ofDigitChars 10` is the value of some digits and `Nat.toDigits 10` the numeral of a number. Digits
that do not start with a zero are the numeral of their value, so a number has one such text.
-/

namespace Numeral

/-- A digit is the numeral of its value. -/
theorem toDigits_of_isDigit {c : Char} (h : c.isDigit) :
    c.toNat - 48 < 10 ∧ Nat.toDigits 10 (c.toNat - 48) = [c] := by
  have hrange : 48 ≤ c.toNat ∧ c.toNat ≤ 57 := by
    simpa [Char.isDigit, UInt32.le_iff_toNat_le] using h
  have hall : ∀ n < 10, Nat.toDigits 10 n = [Char.ofNat (48 + n)] := by decide
  refine ⟨by omega, ?_⟩
  rw [hall _ (by omega), Nat.add_sub_cancel' hrange.1, Char.ofNat_toNat]

theorem foldl_eq_ofDigitChars (s : List Char) (n : Nat) :
    s.foldl (fun n c => n * 10 + (c.toNat - 48)) n = Nat.ofDigitChars 10 s n := by
  simp only [Nat.ofDigitChars_eq_foldl, Nat.mul_comm]
  rfl

/-- **Normal form.** Digits are the numeral of their value, behind some zeros. -/
theorem dropWhile_zero {s : List Char} (h : ∀ c ∈ s, c.isDigit) :
    s.dropWhile (· = '0') =
      if Nat.ofDigitChars 10 s 0 = 0 then [] else Nat.toDigits 10 (Nat.ofDigitChars 10 s 0) := by
  induction s using List.reverseRecOn with
  | nil => rfl
  | append_singleton s c ih =>
    obtain ⟨hlt, hc⟩ := toDigits_of_isDigit (h c (by simp))
    have hvalue : Nat.ofDigitChars 10 (s ++ [c]) 0 =
        10 * Nat.ofDigitChars 10 s 0 + (c.toNat - 48) := Nat.ofDigitChars_append 0
    rw [hvalue, List.dropWhile_append, ih fun d hd => h d (List.mem_append_left _ hd)]
    by_cases hs : Nat.ofDigitChars 10 s 0 = 0
    · -- only zeros so far
      rw [hs]
      by_cases hzero : c = '0'
      · subst hzero
        rfl
      · have hne : c.toNat - 48 ≠ 0 := by
          intro heq
          rw [heq] at hc
          exact hzero (List.cons.inj hc).1.symm
        simp [hzero, hne, hc]
    · rw [if_neg hs, if_neg (by simp), if_neg (by omega),
        ← Nat.toDigits_append_toDigits (by decide) (Nat.pos_of_ne_zero hs) hlt, hc]

theorem dropWhile_toDigits {n : Nat} (h : n ≠ 0) :
    (Nat.toDigits 10 n).dropWhile (· = '0') = Nat.toDigits 10 n := by
  rw [dropWhile_zero fun c => Nat.isDigit_of_mem_toDigits (by decide) (by decide),
    Nat.ofDigitChars_ten_toDigits, if_neg h]

end Numeral
