import PottsOracle.Proofs.Arith.Values

/-!
# Rounded products and quotients

A product or a quotient of positive floats is rounded once, so that it depends on the exact number alone
(`Binary64.IsRounded.unique`), and a number close to a float is rounded to it
(`Binary64.IsRounded.eq_of_near`).

A number below `Binary64.overflowThreshold` is rounded to a float with a value that is not farther from it
than half a unit (`Binary64.IsRounded.exists_value`); one from `2 ^ 1024` on is rounded to infinity
(`Binary64.IsRounded.unpack_eq_infinity`).
-/

namespace PottsOracle.Binary64

open Float.Model Float.Model.UnpackedFloat

/-! ## Products and quotients -/

theorem standsFor_exact {m : ℕ} {e : ℤ} (h : 2 ^ 52 ≤ m ∨ e ≤ -1074) :
    StandsFor m e .exact (m * 2 ^ e) := by
  have hpow : (0 : ℚ) < 2 ^ e := by positivity
  refine ⟨?_, h.imp_left fun hm => ?_⟩
  · rw [mul_div_cancel_right₀ _ hpow.ne']
    exact represents_exact m
  · have hm' : (2 : ℚ) ^ 52 ≤ m := by exact_mod_cast hm
    rw [zpow_add₀ (by norm_num), mul_comm]
    exact mul_le_mul_of_nonneg_right hm' hpow.le

theorem standsFor_divCore {m₁ m₂ : ℕ} (h₁ : 0 < m₁) (h₂ : 0 < m₂) (e₁ e₂ : ℤ) :
    StandsFor (divCore .binary64 m₁ e₁ m₂ e₂).1 (divCore .binary64 m₁ e₁ m₂ e₂).2.1
      (divCore .binary64 m₁ e₁ m₂ e₂).2.2 (m₁ * 2 ^ e₁ / (m₂ * 2 ^ e₂)) := by
  have hm₂ : (0 : ℚ) < m₂ := by exact_mod_cast h₂
  simp only [divCore, targetExponent_eq]
  set e := min (e₁ - e₂) (max (totalExponent m₁ e₁ - totalExponent m₂ e₂ - 53) (-1074)) with he
  obtain ⟨k, hk⟩ := Int.le.dest (show e ≤ e₁ - e₂ from min_le_left _ _)
  have hk' : (e₁ - e₂ - e).toNat = k := by omega
  rw [hk']
  refine ⟨?_, ?_⟩
  · have hq : (m₁ : ℚ) * 2 ^ e₁ / (m₂ * 2 ^ e₂) / 2 ^ e = (m₁ <<< k : ℕ) / m₂ := by
      have hsum : (2 : ℚ) ^ e₁ = 2 ^ e₂ * 2 ^ e * 2 ^ k := by
        rw [← zpow_natCast, ← zpow_add₀ (by norm_num), ← zpow_add₀ (by norm_num)]
        congr 1
        omega
      rw [hsum, Nat.shiftLeft_eq]
      push_cast
      field_simp
    rw [hq]
    exact represents_div _ h₂
  · -- the exponent was chosen so that the quotient has all bits that count or is subnormal
    obtain ⟨hlow, -⟩ := two_zpow_totalExponent_bounds h₁ e₁
    obtain ⟨-, hhigh⟩ := two_zpow_totalExponent_bounds h₂ e₂
    rcases le_total (totalExponent m₁ e₁ - totalExponent m₂ e₂ - 53) (-1074) with hle | hle
    · rw [max_eq_right hle] at he
      exact .inr (he ▸ min_le_right _ _)
    · rw [max_eq_left hle] at he
      left
      have hle' : (2 : ℚ) ^ (e + 52) ≤ 2 ^ (totalExponent m₁ e₁ - 1 - totalExponent m₂ e₂) :=
        zpow_le_zpow_right₀ (by norm_num) (by omega)
      refine hle'.trans ?_
      rw [zpow_sub₀ (by norm_num)]
      refine div_le_div₀ (by positivity) hlow (by positivity) (le_trans ?_ hhigh)
      have : (0 : ℚ) < 2 ^ e₂ := by positivity
      linarith

/-! ## Rounded numbers -/

/-- A float that a positive number is rounded to. -/
def IsRounded (q : ℚ) (x : Float) : Prop :=
  ∃ m e rest, StandsFor m e rest q ∧
    x = ⟨Float.Model.pack (roundWithAccuracy .binary64 .positive m e rest)⟩

theorem IsRounded.unique {q : ℚ} {x y : Float} (hx : IsRounded q x) (hy : IsRounded q y) :
    x = y := by
  obtain ⟨m, e, rest, h, rfl⟩ := hx
  obtain ⟨m', e', rest', h', rfl⟩ := hy
  rw [h.roundWithAccuracy_eq h']

theorem IsRounded.exists_isExponent {q : ℚ} {x : Float} (hx : IsRounded q x) :
    ∃ f, IsExponent q f := by
  obtain ⟨m, e, rest, h, -⟩ := hx
  exact ⟨_, h.isExponent⟩

/-- A number close to a float is rounded to it. -/
theorem IsRounded.eq_of_near {q : ℚ} {x : Float} (hx : IsRounded q x) {m : ℕ} {e : ℤ}
    (h : IsCanonical m e) (hnear : |q - m * 2 ^ e| < m * 2 ^ e / 2 ^ 54) :
    x = ⟨Float.Model.pack (.finite .positive m e h.pos)⟩ := by
  obtain ⟨m', e', rest, hq, rfl⟩ := hx
  rw [h.roundWithAccuracy_eq hq hnear]

section

variable {x y : Float} {m m' : ℕ} {e e' : ℤ} {hm : 0 < m} {hm' : 0 < m'}

theorem isRounded_mul (hx : x.toModel.unpack = .finite .positive m e hm)
    (hy : y.toModel.unpack = .finite .positive m' e' hm') :
    IsRounded (m * 2 ^ e * (m' * 2 ^ e')) (x * y) := by
  have henough : 2 ^ 52 ≤ m * m' ∨ e + e' ≤ -1074 := by
    obtain ⟨hcanonical, -⟩ := isCanonical_of_unpack hx
    obtain ⟨hcanonical', -⟩ := isCanonical_of_unpack hy
    rcases hcanonical.le with hle | rfl
    · exact .inl (hle.trans (Nat.le_mul_of_pos_right m hm'))
    · rcases hcanonical'.le with hle | rfl
      · exact .inl (hle.trans (Nat.le_mul_of_pos_left m' hm))
      · exact .inr (by norm_num)
  refine ⟨m * m', e + e', .exact, ?_, ?_⟩
  · have hq : (m : ℚ) * 2 ^ e * (m' * 2 ^ e') = (m * m' : ℕ) * 2 ^ (e + e') := by
      rw [zpow_add₀ (by norm_num)]
      push_cast
      ring
    rw [hq]
    exact standsFor_exact henough
  · change (⟨Float.Model.pack (mul .binary64 x.toModel.unpack y.toModel.unpack)⟩ : Float) = _
    rw [hx, hy]
    rfl

theorem isRounded_div (hx : x.toModel.unpack = .finite .positive m e hm)
    (hy : y.toModel.unpack = .finite .positive m' e' hm') :
    IsRounded (m * 2 ^ e / (m' * 2 ^ e')) (x / y) := by
  refine ⟨_, _, _, standsFor_divCore hm hm' e e', ?_⟩
  change (⟨Float.Model.pack (div .binary64 x.toModel.unpack y.toModel.unpack)⟩ : Float) = _
  rw [hx, hy]
  rfl

variable {p q : ℚ}

theorem isRounded_mul_of_value (hx : value? x = some p) (hp : 0 < p) (hy : value? y = some q)
    (hq : 0 < q) : IsRounded (p * q) (x * y) := by
  obtain ⟨m, e, hm, hxu, rfl⟩ := unpack_of_pos hx hp
  obtain ⟨m', e', hm', hyu, rfl⟩ := unpack_of_pos hy hq
  exact isRounded_mul hxu hyu

theorem isRounded_div_of_value (hx : value? x = some p) (hp : 0 < p) (hy : value? y = some q)
    (hq : 0 < q) : IsRounded (p / q) (x / y) := by
  obtain ⟨m, e, hm, hxu, rfl⟩ := unpack_of_pos hx hp
  obtain ⟨m', e', hm', hyu, rfl⟩ := unpack_of_pos hy hq
  exact isRounded_div hxu hyu

end

/-! ## How far a number is moved -/

section

variable {m : ℕ} {e f : ℤ} {rest : Accuracy} {q : ℚ} {x : Float}

/-- The rounded significand has its leading bit in front, or the least exponent, and may have one bit too
many. -/
lemma Represents.roundedMantissa_bounds {em : ExtendedMantissa} (h : Represents em (q / 2 ^ f))
    (hf : IsExponent q f) :
    (2 ^ 52 ≤ em.roundedMantissa ∨ f = -1074) ∧ em.roundedMantissa ≤ 2 ^ 53 := by
  have hpow : (0 : ℚ) < 2 ^ f := by positivity
  have hsplit (k : ℤ) : (2 : ℚ) ^ (f + k) = 2 ^ k * 2 ^ f := by
    rw [add_comm, zpow_add₀ two_ne_zero]
  obtain ⟨hlow, hhigh⟩ := abs_le.1 h.abs_roundedMantissa_sub_le
  constructor
  · refine hf.le.imp_left fun hle => ?_
    have hge : (2 : ℚ) ^ 52 ≤ q / 2 ^ f := (le_div_iff₀ hpow).2 ((hsplit 52).symm.trans_le hle)
    have hlt : ((2 ^ 52 : ℕ) : ℚ) < em.roundedMantissa + 1 := by
      push_cast
      linarith
    exact Nat.lt_succ_iff.1 (by exact_mod_cast hlt)
  · have hlt : q / 2 ^ f < 2 ^ 53 := (div_lt_iff₀ hpow).2 (hf.lt.trans_eq (hsplit 53))
    have hlt' : (em.roundedMantissa : ℚ) < (2 ^ 53 : ℕ) + 1 := by
      push_cast
      linarith
    exact Nat.lt_succ_iff.1 (by exact_mod_cast hlt')

/-- Rounding moves a number by at most half a unit. -/
lemma Represents.abs_roundedMantissa_mul_sub_le {em : ExtendedMantissa}
    (h : Represents em (q / 2 ^ f)) : |(em.roundedMantissa : ℚ) * 2 ^ f - q| ≤ 2 ^ f / 2 := by
  have hpow : (0 : ℚ) < 2 ^ f := by positivity
  have hsub : (em.roundedMantissa : ℚ) * 2 ^ f - q = (em.roundedMantissa - q / 2 ^ f) * 2 ^ f := by
    field_simp
  rw [hsub, abs_mul, abs_of_pos hpow]
  linarith [mul_le_mul_of_nonneg_right h.abs_roundedMantissa_sub_le hpow.le]

/-- A number is rounded to nothing or to a significand. -/
theorem StandsFor.exists_roundWithAccuracy_eq (h : StandsFor m e rest q) (hf : IsExponent q f)
    (sign : Sign) :
    (roundWithAccuracy .binary64 sign m e rest = .zero sign ∧ f = -1074 ∧ |q| ≤ 2 ^ f / 2) ∨
      ∃ k g, ∃ hk : IsCanonical k g,
        roundWithAccuracy .binary64 sign m e rest = .finite sign k g hk.pos ∧
          f ≤ g ∧ |(k : ℚ) * 2 ^ g - q| ≤ 2 ^ f / 2 := by
  obtain ⟨em, hem, hrep⟩ := h.shiftToTargetExponent hf
  have hnear := hrep.abs_roundedMantissa_mul_sub_le
  obtain ⟨hle, hk⟩ := hrep.roundedMantissa_bounds hf
  rw [roundWithAccuracy, hem]
  dsimp only
  generalize em.roundedMantissa = k at hnear hle hk
  rcases hk.lt_or_eq with hlt | rfl
  · simp only [shiftToTargetExponent_of_lt hlt hf.min_le]
    rcases Nat.eq_zero_or_pos k with rfl | hpos
    · exact .inl ⟨rfl, hle.resolve_left (by norm_num), by simpa using hnear⟩
    · have hcanonical : IsCanonical k f := ⟨hpos, hlt, hf.min_le, hle⟩
      exact .inr ⟨k, f, hcanonical, dif_neg hpos.ne', le_rfl, hnear⟩
  · -- one bit too many: the next power of two
    have hmin := hf.min_le
    have hcarry := IsCanonical.shiftToTargetExponent_carry (e := f + 1) (by omega)
    rw [add_sub_cancel_right] at hcarry
    have hcanonical : IsCanonical (2 ^ 52) (f + 1) :=
      ⟨by norm_num, by norm_num, by omega, .inl le_rfl⟩
    have hsame : ((2 ^ 52 : ℕ) : ℚ) * 2 ^ (f + 1) = (2 ^ 53 : ℕ) * 2 ^ f := by
      rw [zpow_add_one₀ two_ne_zero]
      push_cast
      ring
    simp only [hcarry]
    exact .inr ⟨2 ^ 52, f + 1, hcanonical, rfl, by omega, hsame ▸ hnear⟩

lemma unpack_pack_infinity (s : Sign) : (Float.Model.pack (.infinity s)).unpack = .infinity s := by
  cases s <;> rfl

/-- What is too large for a float is infinite. -/
lemma unpack_pack_of_le (h : 0 < m) (he : 972 ≤ e) (s : Sign) :
    (Float.Model.pack (.finite s m e h)).unpack = .infinity s := by
  have hinfinite : 2 ^ 11 ≤ (e + 1023 + 52).toNat + 1 := by omega
  have hpack : UnpackedFloat.pack .binary64 (.finite s m e h) =
      UnpackedFloat.pack .binary64 (.infinity s) := if_pos hinfinite
  rw [← unpack_pack_infinity s]
  exact congrArg (UnpackedFloat.unpack .binary64) hpack

/-- A significand whose value is below `2 ^ 1024` fits into a float. -/
lemma IsCanonical.le_of_mul_lt (h : IsCanonical m e) (hlt : (m : ℚ) * 2 ^ e < 2 ^ (1024 : ℤ)) :
    e ≤ 971 := by
  by_contra hgt
  have hlead : 2 ^ 52 ≤ m := h.le.resolve_right (by omega)
  have hlead' : (2 : ℚ) ^ (52 : ℤ) ≤ m := by exact_mod_cast hlead
  have hpow : (2 : ℚ) ^ (972 : ℤ) ≤ 2 ^ e := zpow_le_zpow_right₀ one_le_two (by omega)
  refine hlt.not_ge ?_
  calc (2 : ℚ) ^ (1024 : ℤ) = 2 ^ (52 : ℤ) * 2 ^ (972 : ℤ) := by
        rw [← zpow_add₀ two_ne_zero]
        rfl
    _ ≤ m * 2 ^ e := by gcongr

/-- Half a unit above the largest float. -/
def overflowThreshold : ℚ := 2 ^ (1024 : ℤ) - 2 ^ (970 : ℤ)

lemma two_zpow_lt_overflowThreshold {k : ℤ} (hk : k ≤ 1023) : 2 ^ k < overflowThreshold := by
  have hle : (2 : ℚ) ^ k ≤ 2 ^ (1023 : ℤ) := zpow_le_zpow_right₀ one_le_two hk
  have hlt : (2 : ℚ) ^ (970 : ℤ) < 2 ^ (1023 : ℤ) := zpow_lt_zpow_right₀ one_lt_two (by norm_num)
  have hdouble : (2 : ℚ) ^ (1024 : ℤ) = 2 ^ (1023 : ℤ) * 2 := zpow_add_one₀ two_ne_zero 1023
  rw [overflowThreshold, hdouble, mul_two, lt_sub_iff_add_lt]
  exact add_lt_add_of_le_of_lt hle hlt

lemma overflowThreshold_eq : overflowThreshold = (2 ^ 54 - 1) * 2 ^ (970 : ℤ) := by
  have hsplit : (2 : ℚ) ^ (1024 : ℤ) = 2 ^ 54 * 2 ^ (970 : ℤ) := by
    rw [← zpow_natCast, ← zpow_add₀ two_ne_zero]
    rfl
  rw [overflowThreshold, hsplit, sub_one_mul]

/-- Numbers that are not too large are rounded to numbers, by at most half a unit. -/
theorem IsRounded.exists_value (hx : IsRounded q x) (hf : IsExponent q f)
    (hlt : q < overflowThreshold) : ∃ r, value? x = some r ∧ |r - q| ≤ 2 ^ f / 2 := by
  obtain ⟨m, e, rest, h, rfl⟩ := hx
  rcases h.exists_roundWithAccuracy_eq hf .positive with
    ⟨hround, -, hnear⟩ | ⟨k, g, hk, hround, -, hnear⟩
  · refine ⟨0, ?_, by simpa using hnear⟩
    rw [hround]
    exact value?_of_zero (s := .positive) rfl
  · have hhalf : (2 : ℚ) ^ f / 2 ≤ 2 ^ (970 : ℤ) := by
      have hf' : f ≤ 971 := by
        rcases hf.le with hle | rfl
        · have hpow : (2 : ℚ) ^ (f + 52) < 2 ^ (1024 : ℤ) :=
            (hle.trans_lt hlt).trans (sub_lt_self _ (by positivity))
          rw [zpow_lt_zpow_iff_right₀ one_lt_two] at hpow
          omega
        · norm_num
      rw [div_eq_mul_inv, ← zpow_sub_one₀ two_ne_zero]
      exact zpow_le_zpow_right₀ one_le_two (by omega)
    have hsize : (k : ℚ) * 2 ^ g < 2 ^ (1024 : ℤ) :=
      calc (k : ℚ) * 2 ^ g ≤ q + 2 ^ f / 2 := by linarith [(abs_le.1 hnear).2]
        _ < overflowThreshold + 2 ^ (970 : ℤ) := add_lt_add_of_lt_of_le hlt hhalf
        _ = 2 ^ (1024 : ℤ) := sub_add_cancel _ _
    refine ⟨k * 2 ^ g, ?_, hnear⟩
    rw [hround]
    exact value?_of_positive (unpack_pack_finite hk (hk.le_of_mul_lt hsize) .positive)

/-- Numbers that are neither too large nor too small keep fifty-three bits. -/
theorem IsRounded.exists_value_of_le (hx : IsRounded q x) (hle : 2 ^ (-1022 : ℤ) ≤ q)
    (hlt : q < overflowThreshold) : ∃ r, value? x = some r ∧ |r - q| ≤ q / 2 ^ 53 := by
  obtain ⟨f, hf⟩ := hx.exists_isExponent
  obtain ⟨r, hr, hnear⟩ := hx.exists_value hf hlt
  refine ⟨r, hr, hnear.trans ?_⟩
  have hbits : (2 : ℚ) ^ f * 2 ^ (52 : ℤ) ≤ q := by
    rw [← zpow_add₀ two_ne_zero]
    rcases hf.le with hle' | rfl
    · exact hle'
    · exact hle
  rw [div_le_div_iff₀ (by norm_num) (by norm_num)]
  norm_num at hbits ⊢
  linarith

/-- Numbers that are too large are rounded to infinity. -/
theorem IsRounded.unpack_eq_infinity (hx : IsRounded q x) (hle : 2 ^ (1024 : ℤ) ≤ q) :
    x.toModel.unpack = .infinity .positive := by
  obtain ⟨m, e, rest, h, rfl⟩ := hx
  have hf := h.isExponent
  generalize Format.binary64.targetExponent (totalExponent m e) = f at hf
  have hf' : 972 ≤ f := by
    have hpow := hle.trans_lt hf.lt
    rw [zpow_lt_zpow_iff_right₀ one_lt_two] at hpow
    omega
  rcases h.exists_roundWithAccuracy_eq hf .positive with
    ⟨-, hzero, -⟩ | ⟨k, g, hk, hround, hfg, -⟩
  · omega
  · rw [hround]
    exact unpack_pack_of_le hk.pos (hf'.trans hfg) .positive

/-- What is positive is infinite after multiplication with infinity. -/
lemma unpack_mul_infinity {y : Float} (hx : value? x = some q) (hq : 0 < q)
    (hy : y.toModel.unpack = .infinity .positive) :
    (x * y).toModel.unpack = .infinity .positive := by
  obtain ⟨m, e, hm, hxu, rfl⟩ := unpack_of_pos hx hq
  change (Float.Model.pack (mul .binary64 x.toModel.unpack y.toModel.unpack)).unpack = _
  rw [hxu, hy]
  exact unpack_pack_infinity .positive

end

end PottsOracle.Binary64
