import DatalogFragments.Number.Decimal
import Mathlib.Data.List.Basic

/-!
# Decimal texts

An integer is written with its digits and a minus sign in front of them where it
is negative.  The digits of a number determine it.

## Main results

* `natOfDigits_digitsOf` — the number of its digits;
* `toList_intText` — the two shapes of the text of an integer.
-/

namespace DatalogFragments

section Digits

variable {n : Nat}

theorem isDigit_of_mem_digitsOf : ∀ c ∈ digitsOf n, c.isDigit = true :=
  fun _ hc => Nat.isDigit_of_mem_toDigits (by decide) (by decide) hc

theorem exists_digitsOf_eq_cons (n : Nat) :
    ∃ c cs, digitsOf n = c :: cs ∧ c.isDigit = true := by
  obtain ⟨c, cs, h⟩ := List.exists_cons_of_ne_nil
    (show digitsOf n ≠ [] from Nat.toDigits_ne_nil)
  exact ⟨c, cs, h, isDigit_of_mem_digitsOf c (h ▸ List.mem_cons_self)⟩

theorem natOfDigits_digitsOf : Binary64.natOfDigits (digitsOf n) = n := by
  rw [Binary64.natOfDigits, ← Nat.ofDigitChars_eq_foldl]
  exact Nat.ofDigitChars_ten_toDigits

end Digits

theorem intText_natCast (n : Nat) :
    intText (n : Int) = String.ofList (digitsOf n) := by
  have hn : ¬(n : Int) < 0 := by omega
  rw [intText, if_neg hn, Int.natAbs_natCast]

theorem intText_natCast_injective {m n : Nat}
    (h : intText (m : Int) = intText (n : Int)) : m = n := by
  rw [intText_natCast, intText_natCast, String.ofList_inj] at h
  rw [← natOfDigits_digitsOf (n := m), h, natOfDigits_digitsOf]

/-- An integer is written with its digits, and with a minus sign before them if it
is negative. -/
theorem toList_intText (i : Int) :
    (∃ n : Nat, i = n ∧ (intText i).toList = digitsOf n) ∨
      ∃ n : Nat, i = -n ∧ (intText i).toList = '-' :: digitsOf n := by
  rw [intText]
  split
  · rename_i hNegative
    exact .inr ⟨i.natAbs, Int.eq_neg_natAbs_of_nonpos (Int.le_of_lt hNegative),
      String.toList_ofList⟩
  · rename_i hNonneg
    exact .inl ⟨i.natAbs, (Int.natAbs_of_nonneg (Int.not_lt.mp hNonneg)).symm,
      String.toList_ofList⟩

end DatalogFragments
