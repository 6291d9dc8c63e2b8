import PottsOracle.Decimal.Shortest
import PottsOracle.Proofs.Arith.Rounded

/-!
# From decimal digits to a float

A positive decimal number is rounded once, so the float depends only on the number that the digits
and the power of ten stand for; and digits that are close enough to a float are rounded to it.
-/

namespace PottsOracle.Binary64

open Float.Model Float.Model.UnpackedFloat

/-! ## Integers -/

/-- An integer of at most fifty-three bits is a float. -/
theorem round_eq {n : ℕ} (hpos : 0 < n) (hlt : n < 2 ^ 53) :
    ∃ (m : ℕ) (e : ℤ) (h : IsCanonical m e), e ≤ 971 ∧ (m : ℚ) * 2 ^ e = n ∧
      UnpackedFloat.round .binary64 .positive n 0 = .finite .positive m e h.pos := by
  have hlog : n.log2 < 53 := (Nat.log2_lt hpos.ne').2 hlt
  obtain ⟨k, hk⟩ := Nat.exists_eq_add_of_le (show n.log2 ≤ 52 by omega)
  have hge : 2 ^ 52 ≤ n <<< k := by
    rw [Nat.shiftLeft_eq, hk, pow_add]
    exact Nat.mul_le_mul_right _ (Nat.log2_self_le hpos.ne')
  have hlt' : n <<< k < 2 ^ 53 := by
    have h := Nat.mul_lt_mul_of_pos_right (Nat.lt_log2_self (n := n)) (Nat.two_pow_pos k)
    rw [← pow_add] at h
    rw [Nat.shiftLeft_eq]
    exact h.trans_eq (by congr 1; omega)
  have hcanonical : IsCanonical (n <<< k) (-k) := ⟨by omega, hlt', by omega, .inl hge⟩
  have hvalue : ((n <<< k : ℕ) : ℚ) * 2 ^ (-(k : ℤ)) = n := by
    rw [Nat.shiftLeft_eq, zpow_neg, zpow_natCast]
    push_cast
    field_simp
  refine ⟨n <<< k, -k, hcanonical, by omega, hvalue, ?_⟩
  have htarget : Format.binary64.targetExponent (totalExponent n 0) = -k := by
    rw [targetExponent_eq, totalExponent]
    omega
  have hk' : (0 - -(k : ℤ)).toNat = k := by omega
  simp only [UnpackedFloat.round, decreaseExponent, htarget, hk']
  rw [zero_sub]
  refine hcanonical.roundWithAccuracy_eq (standsFor_exact (.inl hge)) ?_ .positive
  rw [sub_self, abs_zero, hvalue]
  positivity

theorem unpack_toFloat {n : ℕ} (hpos : 0 < n) (hlt : n < 2 ^ 53) :
    ∃ (m : ℕ) (e : ℤ) (hm : 0 < m), (m : ℚ) * 2 ^ e = n ∧
      n.toUInt64.toFloat.toModel.unpack = .finite .positive m e hm := by
  obtain ⟨m, e, h, he, hvalue, hround⟩ := round_eq hpos hlt
  refine ⟨m, e, h.pos, hvalue, ?_⟩
  have hn : n.toUInt64.toNat = n := by
    rw [Nat.toUInt64_eq, UInt64.toNat_ofNat']
    omega
  have hofNat : UnpackedFloat.ofUInt64 .binary64 n.toUInt64 =
      UnpackedFloat.round .binary64 .positive n 0 := by
    have hcompare : compare (n : ℤ) 0 = .gt := compare_gt_iff_gt.2 (by exact_mod_cast hpos)
    rw [UnpackedFloat.ofUInt64, hn, UnpackedFloat.ofNat, UnpackedFloat.ofInt,
      UnpackedFloat.normalize, hcompare]
    rfl
  change (Float.Model.pack (UnpackedFloat.ofUInt64 .binary64 n.toUInt64)).unpack = _
  rw [hofNat, hround, unpack_pack_finite h he]

/-- The table of powers of ten holds floats that are these powers. -/
theorem decode_exactlyRepresentablePowersOfTen (k : Fin 23) :
    decode (Float.exactlyRepresentablePowersOfTen[k]) =
        .finite false (10 ^ k.val * 2 ^ 52 / 2 ^ (10 ^ k.val).log2) ((10 ^ k.val).log2 - 52) ∧
      2 ^ (10 ^ k.val).log2 ∣ 10 ^ k.val * 2 ^ 52 := by
  revert k
  decide +kernel

theorem unpack_exactlyRepresentablePowersOfTen {k : ℕ} (hk : k < 23) :
    ∃ (m : ℕ) (e : ℤ) (hm : 0 < m), (m : ℚ) * 2 ^ e = 10 ^ k ∧
      (Float.exactlyRepresentablePowersOfTen[k]).toModel.unpack = .finite .positive m e hm := by
  obtain ⟨hdecode, hdvd⟩ := decode_exactlyRepresentablePowersOfTen ⟨k, hk⟩
  have hpos : 0 < 10 ^ k * 2 ^ 52 / 2 ^ (10 ^ k).log2 :=
    Nat.div_pos (Nat.le_of_dvd (by positivity) hdvd) (by positivity)
  obtain ⟨s, hs, hunpack⟩ := unpack_of_decode hdecode hpos
  obtain rfl : s = .positive := by
    cases s
    · exact absurd hs (by decide)
    · rfl
  refine ⟨_, _, hpos, ?_, hunpack⟩
  rw [Nat.cast_div hdvd (by positivity), zpow_sub₀ (by norm_num)]
  push_cast
  field_simp
  norm_num

/-! ## Decimal digits -/

theorem ofScientific_natCast {s k : ℕ} (hs : 0 < s) (hk : k ≤ 2048) :
    UnpackedFloat.ofScientific .binary64 s k =
      roundWithAccuracy .binary64 .positive (s <<< 53 * 10 ^ k) (-53) .exact := by
  have hmax : ¬ (k : ℤ) > 2 ^ 11 := by omega
  have hmin : ¬ (k : ℤ) < -(2 ^ 11 + s.log2) := by omega
  rw [UnpackedFloat.ofScientific, dif_neg hs.ne']
  refine (if_neg hmax).trans ((if_neg hmin).trans ((if_pos (Int.natCast_nonneg k)).trans ?_))
  rfl

theorem ofScientific_neg {s k : ℕ} (hs : 0 < s) (hk : k ≤ 2048) (hpos : 0 < k) :
    UnpackedFloat.ofScientific .binary64 s (-k) =
      roundWithAccuracy .binary64 .positive (divCore .binary64 s 0 (10 ^ k) 0).1
        (divCore .binary64 s 0 (10 ^ k) 0).2.1 (divCore .binary64 s 0 (10 ^ k) 0).2.2 := by
  have hmax : ¬ -(k : ℤ) > 2 ^ 11 := by omega
  have hmin : ¬ -(k : ℤ) < -(2 ^ 11 + s.log2) := by omega
  have hneg : ¬ 0 ≤ -(k : ℤ) := by omega
  rw [UnpackedFloat.ofScientific, dif_neg hs.ne']
  refine (if_neg hmax).trans ((if_neg hmin).trans ((if_neg hneg).trans ?_))
  simp only [neg_neg, Int.toNat_natCast]
  rfl

theorem isRounded_ofScientific_mul {s k : ℕ} (hs : 0 < s) (hk : k ≤ 2048) :
    IsRounded (s * 10 ^ k) (Float.ofScientific s false k) := by
  -- short digits and small powers of ten are floats, and their product is rounded once
  by_cases hfast : s < 2 ^ 53 ∧ k ≤ 22
  · obtain ⟨m, e, hm, hvalue, hunpack⟩ := unpack_toFloat hs hfast.1
    obtain ⟨m', e', hm', hvalue', hunpack'⟩ :=
      unpack_exactlyRepresentablePowersOfTen (Nat.lt_succ_of_le hfast.2)
    rw [← hvalue, ← hvalue', Float.ofScientific, dif_pos hfast]
    exact isRounded_mul hunpack hunpack'
  · refine ⟨s <<< 53 * 10 ^ k, -53, .exact, ?_, ?_⟩
    · have hq : ((s <<< 53 * 10 ^ k : ℕ) : ℚ) * 2 ^ (-53 : ℤ) = s * 10 ^ k := by
        rw [Nat.shiftLeft_eq]
        push_cast
        norm_num
        ring
      have hge : 2 ^ 52 ≤ s <<< 53 * 10 ^ k := by
        rw [Nat.shiftLeft_eq]
        have : 1 ≤ s * 10 ^ k := Nat.mul_pos hs (by positivity)
        nlinarith
      rw [← hq]
      exact standsFor_exact (.inl hge)
    · rw [Float.ofScientific, dif_neg hfast, ← ofScientific_natCast hs hk]
      rfl

theorem isRounded_ofScientific_div {s k : ℕ} (hs : 0 < s) (hk : k ≤ 2048) (hpos : 0 < k) :
    IsRounded (s / 10 ^ k) (Float.ofScientific s true k) := by
  by_cases hfast : s < 2 ^ 53 ∧ k ≤ 22
  · obtain ⟨m, e, hm, hvalue, hunpack⟩ := unpack_toFloat hs hfast.1
    obtain ⟨m', e', hm', hvalue', hunpack'⟩ :=
      unpack_exactlyRepresentablePowersOfTen (Nat.lt_succ_of_le hfast.2)
    rw [← hvalue, ← hvalue', Float.ofScientific, dif_pos hfast]
    exact isRounded_div hunpack hunpack'
  · have hstands := standsFor_divCore hs (show 0 < 10 ^ k by positivity) 0 0
    refine ⟨_, _, _, by simpa using hstands, ?_⟩
    rw [Float.ofScientific, dif_neg hfast, if_pos rfl, ← ofScientific_neg hs hk hpos,
      Int.negOfNat_eq]
    rfl

/-- The float of positive decimal digits is rounded from the number that they stand for. -/
theorem isRounded_toFloat {s : ℕ} (hs : 0 < s) (hs' : s < 10 ^ 40) {e : ℤ} (he : -370 ≤ e)
    (he' : e ≤ 330) : IsRounded (s * 10 ^ e) (Decimal.toFloat s e) := by
  have hlog : s.log2 < 133 := (Nat.log2_lt hs.ne').2 (hs'.trans (by norm_num))
  have hlength : Decimal.roughLength s ≤ 40 := by
    rw [Decimal.roughLength]
    omega
  have hzero : ¬ (s = 0 ∨ (Decimal.roughLength s + e : ℤ) < -400) := by omega
  have hinfinite : ¬ 400 < (Decimal.roughLength s + e : ℤ) := by omega
  rw [Decimal.toFloat]
  simp only [if_neg hzero, if_neg hinfinite]
  split_ifs with hnonneg
  · obtain ⟨k, rfl⟩ := Int.eq_ofNat_of_zero_le hnonneg
    rw [Int.toNat_natCast, zpow_natCast]
    exact isRounded_ofScientific_mul hs (by omega)
  · obtain ⟨k, hk⟩ := Int.eq_ofNat_of_zero_le (show 0 ≤ -e by omega)
    obtain rfl : e = -k := by omega
    rw [neg_neg, Int.toNat_natCast, zpow_neg, zpow_natCast, ← div_eq_mul_inv]
    exact isRounded_ofScientific_div hs (by omega) (by omega)

/-- Digits that stand for the same number are rounded to the same float. -/
theorem IsRounded.toFloat_eq {q : ℚ} {x : Float} (hx : IsRounded q x) (hq : 0 < q) {s : ℕ} {e : ℤ}
    (hvalue : s * (10 : ℚ) ^ e = q) (hs : s < 10 ^ 40) (he : -370 ≤ e) (he' : e ≤ 330) :
    Decimal.toFloat s e = x := by
  have hpos : 0 < s := by
    refine Nat.pos_of_ne_zero ?_
    rintro rfl
    simp [← hvalue] at hq
  have hrounded := isRounded_toFloat hpos hs he he'
  rw [hvalue] at hrounded
  exact hrounded.unique hx

end PottsOracle.Binary64
