import Mathlib.Data.Nat.Digits.Lemmas
import PottsOracle.Json.Token

/-!
# Digits and the numbers they stand for

The digits of a number stand for it, and they are as few as possible.
-/

namespace PottsOracle

namespace Json

theorem natOfDigits_eq_ofDigits (ds : List Nat) : natOfDigits ds = Nat.ofDigits 10 ds.reverse := by
  rw [Nat.ofDigits_eq_foldr, List.foldr_reverse]
  simp [natOfDigits, add_comm]

@[simp]
theorem natOfDigits_nil : natOfDigits [] = 0 := rfl

@[simp]
theorem natOfDigits_singleton (d : Nat) : natOfDigits [d] = d := by simp [natOfDigits]

theorem natOfDigits_append (ds es : List Nat) :
    natOfDigits (ds ++ es) = natOfDigits ds * 10 ^ es.length + natOfDigits es := by
  simp only [natOfDigits_eq_ofDigits, List.reverse_append, Nat.ofDigits_append, List.length_reverse]
  ring

theorem natOfDigits_lt {ds : List Nat} (h : ∀ d ∈ ds, d < 10) :
    natOfDigits ds < 10 ^ ds.length := by
  rw [natOfDigits_eq_ofDigits, ← List.length_reverse]
  exact Nat.ofDigits_lt_base_pow_length (by norm_num) (by simpa using h)

end Json

namespace Text

open Json

theorem digits_eq_reverse {n : Nat} (h : n ≠ 0) : digits n = (Nat.digits 10 n).reverse := by
  fun_induction digits n with
  | case1 n hn => simp [Nat.digits_of_lt 10 n h hn]
  | case2 n hn ih =>
    rw [ih (by omega), Nat.digits_def' (by norm_num) (by omega : 0 < n), List.reverse_cons]

@[simp]
theorem digits_zero : digits 0 = [0] := by rw [digits]; rfl

theorem digits_ne_nil (n : Nat) : digits n ≠ [] := by
  fun_cases digits n <;> simp

theorem lt_ten_of_mem_digits {n d : Nat} (h : d ∈ digits n) : d < 10 := by
  by_cases hn : n = 0
  · simp_all
  · rw [digits_eq_reverse hn, List.mem_reverse] at h
    exact Nat.digits_lt_base (by norm_num) h

@[simp]
theorem natOfDigits_digits (n : Nat) : natOfDigits (digits n) = n := by
  by_cases hn : n = 0
  · simp [hn]
  · rw [digits_eq_reverse hn, natOfDigits_eq_ofDigits, List.reverse_reverse, Nat.ofDigits_digits]

theorem length_digits_le_iff {n k : Nat} (hk : 0 < k) : (digits n).length ≤ k ↔ n < 10 ^ k := by
  by_cases hn : n = 0
  · have hpow : 0 < 10 ^ k := by positivity
    simp only [hn, digits_zero, List.length_singleton, hpow, iff_true]
    exact hk
  · rw [digits_eq_reverse hn, List.length_reverse, Nat.digits_length_le_iff (by norm_num)]

/-- No other digits of the same number are fewer. -/
theorem length_digits_natOfDigits_le {ds : List Nat} (hds : ds ≠ []) (h : ∀ d ∈ ds, d < 10) :
    (digits (natOfDigits ds)).length ≤ ds.length :=
  (length_digits_le_iff (List.length_pos_iff.2 hds)).2 (natOfDigits_lt h)

/-- Only the number zero starts with the digit zero. -/
theorem eq_zero_of_digits_eq_cons_zero {n : Nat} {ds : List Nat} (h : digits n = 0 :: ds) :
    n = 0 := by
  by_contra hn
  have hlast := Nat.getLast_digit_ne_zero 10 hn
  rw [digits_eq_reverse hn] at h
  have : Nat.digits 10 n = ds.reverse ++ [0] := by
    rw [← List.reverse_reverse (Nat.digits 10 n), h, List.reverse_cons]
  simp [this] at hlast

end Text

end PottsOracle
