import Mathlib.Tactic
import PottsOracle.Arith.Binary64

/-!
# How floats are rounded

A float that is computed is rounded once, from a significand with what is known about the rest
behind it.  Such a triple stands for a number, and the rounded float depends on that number alone.
A number close to a float is rounded to it.
-/

namespace PottsOracle.Binary64

open Float.Model Float.Model.UnpackedFloat

/-! ## Significands with a rest -/

/-- A significand and its two bits for the rest stand for a number: the rest is nothing, less than a
half, a half, or more. -/
def Represents (em : ExtendedMantissa) (x : ℚ) : Prop :=
  match em.roundBit, em.stickyBit with
  | false, false => x = em.mantissa
  | false, true => em.mantissa < x ∧ x < em.mantissa + 1 / 2
  | true, false => x = em.mantissa + 1 / 2
  | true, true => em.mantissa + 1 / 2 < x ∧ x < em.mantissa + 1

theorem represents_exact (m : ℕ) :
    Represents (ExtendedMantissa.ofMantissaAndAccuracy m .exact) m := by
  simp [Represents, ExtendedMantissa.ofMantissaAndAccuracy]

/-- The integer part of a quotient, and how the rest compares to a half. -/
theorem represents_div (n : ℕ) {d : ℕ} (hd : 0 < d) :
    Represents (ExtendedMantissa.ofMantissaAndAccuracy (n / d) (accuracyOfFraction (n % d) d))
      (n / d) := by
  have hd' : (0 : ℚ) < d := by exact_mod_cast hd
  have hsum : (d : ℚ) * (n / d : ℕ) + (n % d : ℕ) = n := by exact_mod_cast Nat.div_add_mod n d
  have hdiv : (n : ℚ) / d = (n / d : ℕ) + (n % d : ℕ) / d := by
    field_simp
    linarith
  have hlt : ((n % d : ℕ) : ℚ) < d := by exact_mod_cast Nat.mod_lt n hd
  rw [hdiv, accuracyOfFraction]
  split_ifs with hzero
  · simp [hzero, Represents, ExtendedMantissa.ofMantissaAndAccuracy]
  have hpos : (0 : ℚ) < (n % d : ℕ) := by exact_mod_cast Nat.pos_of_ne_zero hzero
  have hfraction : (0 : ℚ) < (n % d : ℕ) / d := by positivity
  have hfraction' : ((n % d : ℕ) : ℚ) / d < 1 := (div_lt_one hd').2 hlt
  rcases lt_trichotomy (2 * (n % d)) d with h | h | h
  · have h' : (2 : ℚ) * (n % d : ℕ) < d := by exact_mod_cast h
    have hhalf : ((n % d : ℕ) : ℚ) / d < 1 / 2 := by
      rw [div_lt_div_iff₀ hd' (by norm_num)]
      linarith
    simp only [compare_lt_iff_lt.2 h, Represents, ExtendedMantissa.ofMantissaAndAccuracy]
    constructor <;> linarith
  · have h' : (2 : ℚ) * (n % d : ℕ) = d := by exact_mod_cast h
    have hhalf : ((n % d : ℕ) : ℚ) / d = 1 / 2 := by
      rw [div_eq_div_iff hd'.ne' (by norm_num)]
      linarith
    simp only [compare_eq_iff_eq.2 h, Represents, ExtendedMantissa.ofMantissaAndAccuracy, hhalf]
  · have h' : (d : ℚ) < 2 * (n % d : ℕ) := by exact_mod_cast h
    have hhalf : 1 / 2 < ((n % d : ℕ) : ℚ) / d := by
      rw [div_lt_div_iff₀ (by norm_num) hd']
      linarith
    simp only [compare_gt_iff_gt.2 h, Represents, ExtendedMantissa.ofMantissaAndAccuracy]
    constructor <;> linarith

namespace Represents

variable {em em' : ExtendedMantissa} {x : ℚ}

theorem bounds (h : Represents em x) : em.mantissa ≤ x ∧ x < em.mantissa + 1 := by
  obtain ⟨m, r, s⟩ := em
  cases r <;> cases s <;> simp only [Represents] at h <;> constructor <;> linarith

/-- A number is represented in one way only. -/
theorem unique (h : Represents em x) (h' : Represents em' x) : em = em' := by
  have hm : em.mantissa = em'.mantissa := by
    have hfloor := h.bounds
    have hfloor' := h'.bounds
    have h₁ : (em.mantissa : ℚ) < em'.mantissa + 1 := by linarith
    have h₂ : (em'.mantissa : ℚ) < em.mantissa + 1 := by linarith
    norm_cast at h₁ h₂
    omega
  obtain ⟨m, r, s⟩ := em
  obtain ⟨m', r', s'⟩ := em'
  obtain rfl : m = m' := hm
  cases r <;> cases s <;> cases r' <;> cases s' <;> simp only [Represents] at h h' <;>
    first | rfl | (exfalso; linarith)

theorem shiftRightOne (h : Represents em x) : Represents em.shiftRightOne (x / 2) := by
  obtain ⟨m, r, s⟩ := em
  have hm : (m : ℚ) = 2 * (m / 2 : ℕ) + (m % 2 : ℕ) := by
    exact_mod_cast (Nat.div_add_mod m 2).symm
  rcases Nat.mod_two_eq_zero_or_one m with hr | hr <;> rw [hr] at hm <;> push_cast at hm <;>
    cases r <;> cases s <;>
    simp only [Represents, ExtendedMantissa.shiftRightOne, hr, bne_self_eq_false, Bool.or_self,
      Bool.or_true, Bool.or_false, show ((1 : ℕ) != 0) = true from rfl] at h ⊢ <;>
    first | linarith | (constructor <;> linarith)

theorem shiftRight (h : Represents em x) (k : ℕ) : Represents (em >>> k) (x / 2 ^ k) := by
  change Represents (k.repeat ExtendedMantissa.shiftRightOne em) _
  induction k with
  | zero => simpa [Nat.repeat] using h
  | succ k ih =>
    rw [Nat.repeat, pow_succ, ← div_div]
    exact ih.shiftRightOne

/-- Rounding moves a number by at most a half. -/
theorem abs_roundedMantissa_sub_le (h : Represents em x) : |em.roundedMantissa - x| ≤ 1 / 2 := by
  obtain ⟨m, r, s⟩ := em
  rw [abs_le]
  cases r <;> cases s <;>
    simp only [Represents, ExtendedMantissa.roundedMantissa, ExtendedMantissa.accuracy,
      Accuracy.roundToNearestEven] at h ⊢
  case true.false =>
    rcases Nat.mod_two_eq_zero_or_one m with hr | hr <;> rw [hr] <;> push_cast <;>
      constructor <;> linarith
  all_goals push_cast; constructor <;> linarith

/-- A number less than a half away from an integer is rounded to it. -/
theorem roundedMantissa_eq (h : Represents em x) {m : ℕ} (hm : |x - m| < 1 / 2) :
    em.roundedMantissa = m := by
  have hround := abs_le.1 h.abs_roundedMantissa_sub_le
  rw [abs_lt] at hm
  have h₁ : (em.roundedMantissa : ℚ) < m + 1 := by linarith
  have h₂ : (m : ℚ) < em.roundedMantissa + 1 := by linarith
  norm_cast at h₁ h₂
  omega

/-- A number less than half a unit away from a multiple of the unit is rounded to it. -/
theorem roundedMantissa_eq_of_near {q : ℚ} {e : ℤ} (h : Represents em (q / 2 ^ e)) {m : ℕ}
    (hm : |q - m * 2 ^ e| < 2 ^ e / 2) : em.roundedMantissa = m := by
  have hpow : (0 : ℚ) < 2 ^ e := by positivity
  refine h.roundedMantissa_eq ?_
  have hsub : q / 2 ^ e - m = (q - m * 2 ^ e) / 2 ^ e := by field_simp
  rw [hsub, abs_div, abs_of_pos hpow, div_lt_iff₀ hpow]
  linarith

end Represents

/-! ## The exponent of a number -/

/-- The exponent at which a number is rounded: fifty-three bits of it count, and none below the
smallest float. -/
structure IsExponent (q : ℚ) (e : ℤ) : Prop where
  min_le : -1074 ≤ e
  lt : q < 2 ^ (e + 53)
  le : 2 ^ (e + 52) ≤ q ∨ e = -1074

theorem IsExponent.unique {q : ℚ} {e e' : ℤ} (h : IsExponent q e) (h' : IsExponent q e') :
    e = e' := by
  have key {e e' : ℤ} (h : IsExponent q e) (h' : IsExponent q e') : e ≤ e' := by
    rcases h.le with hle | rfl
    · have hlt : (2 : ℚ) ^ (e + 52) < 2 ^ (e' + 53) := hle.trans_lt h'.lt
      rw [zpow_lt_zpow_iff_right₀ (by norm_num)] at hlt
      omega
    · exact h'.min_le
  exact le_antisymm (key h h') (key h' h)

/-- A significand, an exponent and what is known about the rest stand for a number, with enough bits
to round it. -/
structure StandsFor (m : ℕ) (e : ℤ) (rest : Accuracy) (q : ℚ) : Prop where
  represents : Represents (.ofMantissaAndAccuracy m rest) (q / 2 ^ e)
  enough : 2 ^ (e + 52) ≤ q ∨ e ≤ -1074

theorem ofMantissaAndAccuracy_mantissa (m : ℕ) (rest : Accuracy) :
    (ExtendedMantissa.ofMantissaAndAccuracy m rest).mantissa = m := by
  cases rest with
  | exact => rfl
  | inexact o => cases o <;> rfl

theorem targetExponent_eq (e : ℤ) : Format.binary64.targetExponent e = max (e - 53) (-1074) := rfl

/-- A significand lies between two powers of two. -/
theorem two_zpow_totalExponent_bounds {m : ℕ} (hm : 0 < m) (e : ℤ) :
    2 ^ (totalExponent m e - 1) ≤ (m : ℚ) * 2 ^ e ∧
      ((m : ℚ) + 1) * 2 ^ e ≤ 2 ^ totalExponent m e := by
  have hlow : (2 : ℚ) ^ m.log2 ≤ m := by exact_mod_cast Nat.log2_self_le hm.ne'
  have hhigh : (m : ℚ) + 1 ≤ 2 ^ (m.log2 + 1) := by exact_mod_cast Nat.lt_log2_self
  have hpow : (0 : ℚ) < 2 ^ e := by positivity
  constructor
  · have hexp : totalExponent m e - 1 = (m.log2 : ℤ) + e := by
      rw [totalExponent]
      ring
    rw [hexp, zpow_add₀ (by norm_num), zpow_natCast]
    exact mul_le_mul_of_nonneg_right hlow hpow.le
  · have hexp : totalExponent m e = ((m.log2 + 1 : ℕ) : ℤ) + e := by
      rw [totalExponent]
      push_cast
      ring
    rw [hexp, zpow_add₀ (by norm_num), zpow_natCast]
    exact mul_le_mul_of_nonneg_right hhigh hpow.le

namespace StandsFor

variable {m : ℕ} {e : ℤ} {rest : Accuracy} {q : ℚ}

theorem bounds (h : StandsFor m e rest q) : m * 2 ^ e ≤ q ∧ q < (m + 1) * 2 ^ e := by
  have hpow : (0 : ℚ) < 2 ^ e := by positivity
  have hbounds := h.represents.bounds
  rw [ofMantissaAndAccuracy_mantissa, le_div_iff₀ hpow, div_lt_iff₀ hpow] at hbounds
  exact hbounds

theorem pos (h : StandsFor m e rest q) : 0 < m ∨ e ≤ -1074 := by
  refine h.enough.imp (fun hle => Nat.pos_of_ne_zero ?_) id
  rintro rfl
  have hlt : (2 : ℚ) ^ (e + 52) < 2 ^ e := by simpa using hle.trans_lt h.bounds.2
  rw [zpow_lt_zpow_iff_right₀ (by norm_num)] at hlt
  omega

/-- The significand is not cut down to fewer bits than it has. -/
theorem le_of_isExponent (h : StandsFor m e rest q) {f : ℤ} (hf : IsExponent q f) : e ≤ f := by
  rcases h.enough with hle | hle
  · have hlt : (2 : ℚ) ^ (e + 52) < 2 ^ (f + 53) := hle.trans_lt hf.lt
    rw [zpow_lt_zpow_iff_right₀ (by norm_num)] at hlt
    omega
  · exact hle.trans hf.min_le

/-- A significand with digits says between which powers of two the number lies. -/
theorem totalExponent_bounds (h : StandsFor m e rest q) (hm : 0 < m) :
    2 ^ (totalExponent m e - 1) ≤ q ∧ q < 2 ^ totalExponent m e := by
  obtain ⟨hlow, hhigh⟩ := two_zpow_totalExponent_bounds hm e
  exact ⟨hlow.trans h.bounds.1, h.bounds.2.trans_le hhigh⟩

/-- The significand shows at which exponent the number is rounded. -/
theorem isExponent (h : StandsFor m e rest q) :
    IsExponent q (Format.binary64.targetExponent (totalExponent m e)) := by
  rw [targetExponent_eq]
  rcases Nat.eq_zero_or_pos m with rfl | hm
  · have he : e ≤ -1074 := h.pos.resolve_left (lt_irrefl 0)
    have htarget : max (totalExponent 0 e - 53) (-1074) = -1074 := by
      simp only [totalExponent, Nat.log2_zero]
      omega
    have hq : q < 2 ^ e := by simpa using h.bounds.2
    rw [htarget]
    refine ⟨le_rfl, hq.trans_le ?_, .inr rfl⟩
    exact zpow_le_zpow_right₀ (by norm_num) (by omega)
  · obtain ⟨hlow, hhigh⟩ := h.totalExponent_bounds hm
    refine ⟨le_max_right _ _, hhigh.trans_le ?_, ?_⟩
    · exact zpow_le_zpow_right₀ (by norm_num) (by omega)
    · rcases le_total (totalExponent m e - 53) (-1074) with hle | hle
      · exact .inr (max_eq_right hle)
      · rw [max_eq_left hle]
        exact .inl (le_of_eq_of_le (by congr 1; ring) hlow)

/-- The significand is cut down to the bits that count, and still stands for the number. -/
theorem shiftToTargetExponent (h : StandsFor m e rest q) {f : ℤ} (hf : IsExponent q f) :
    ∃ em, UnpackedFloat.shiftToTargetExponent .binary64 m e rest = (em, f) ∧
      Represents em (q / 2 ^ f) := by
  have htarget := h.isExponent.unique hf
  obtain ⟨k, rfl⟩ := Int.le.dest (h.le_of_isExponent hf)
  have hk : (e + k - e).toNat = k := by omega
  have hq : q / 2 ^ e / 2 ^ k = q / 2 ^ (e + k) := by
    rw [zpow_add₀ (by norm_num), zpow_natCast, div_div]
  refine ⟨_, ?_, hq ▸ h.represents.shiftRight k⟩
  simp only [UnpackedFloat.shiftToTargetExponent, htarget, shiftToExponent, hk]

/-- Rounding depends on the number alone. -/
theorem roundWithAccuracy_eq {m' : ℕ} {e' : ℤ} {rest' : Accuracy} (h : StandsFor m e rest q)
    (h' : StandsFor m' e' rest' q) (sign : Sign) :
    roundWithAccuracy .binary64 sign m e rest = roundWithAccuracy .binary64 sign m' e' rest' := by
  obtain ⟨em, hem, hrep⟩ := h.shiftToTargetExponent h.isExponent
  obtain ⟨em', hem', hrep'⟩ := h'.shiftToTargetExponent h.isExponent
  obtain rfl := hrep.unique hrep'
  rw [roundWithAccuracy, roundWithAccuracy, hem, hem']

end StandsFor

/-! ## Floats and the numbers around them -/

/-- Fifty-three bits are not cut down any further. -/
theorem shiftToTargetExponent_of_lt {m : ℕ} {e : ℤ} (hlt : m < 2 ^ 53) (hmin : -1074 ≤ e) :
    UnpackedFloat.shiftToTargetExponent .binary64 m e .exact = (⟨m, false, false⟩, e) := by
  have hlog : m.log2 < 53 := by
    rcases Nat.eq_zero_or_pos m with rfl | hm
    · norm_num
    · exact (Nat.log2_lt hm.ne').2 hlt
  have htarget : Format.binary64.targetExponent (totalExponent m e) ≤ e := by
    rw [targetExponent_eq, totalExponent]
    omega
  have hshift : (Format.binary64.targetExponent (totalExponent m e) - e).toNat = 0 := by omega
  simp only [UnpackedFloat.shiftToTargetExponent, shiftToExponent, hshift, Nat.cast_zero, add_zero]
  rfl

/-- The significand and the exponent of a finite float that is not zero. -/
structure IsCanonical (m : ℕ) (e : ℤ) : Prop where
  pos : 0 < m
  lt : m < 2 ^ 53
  min_le : -1074 ≤ e
  le : 2 ^ 52 ≤ m ∨ e = -1074

namespace IsCanonical

variable {m : ℕ} {e : ℤ}

theorem shiftToTargetExponent (h : IsCanonical m e) :
    UnpackedFloat.shiftToTargetExponent .binary64 m e .exact = (⟨m, false, false⟩, e) :=
  shiftToTargetExponent_of_lt h.lt h.min_le

/-- A float has less than a half of its unit for each of its bits. -/
theorem error_lt (h : IsCanonical m e) : (m : ℚ) * 2 ^ e / 2 ^ 54 < 2 ^ e / 2 := by
  have hpow : (0 : ℚ) < 2 ^ e := by positivity
  have hlt : (m : ℚ) < 2 ^ 53 := by exact_mod_cast h.lt
  rw [div_lt_div_iff₀ (by positivity) (by norm_num)]
  nlinarith

/-- The exponent of a number close to a float: that of the float, or one less just below a power of
two. -/
theorem isExponent_of_near (h : IsCanonical m e) {q : ℚ}
    (hq : |q - m * 2 ^ e| < m * 2 ^ e / 2 ^ 54) :
    IsExponent q e ∨ m = 2 ^ 52 ∧ -1074 < e ∧ IsExponent q (e - 1) := by
  have hpow : (0 : ℚ) < 2 ^ e := by positivity
  have hsplit (k : ℤ) : (2 : ℚ) ^ (e + k) = 2 ^ e * 2 ^ k := zpow_add₀ (by norm_num) e k
  have herror := h.error_lt
  have hm : (m : ℚ) + 1 ≤ 2 ^ 53 := by exact_mod_cast h.lt
  rw [abs_lt] at hq
  have hlt : q < 2 ^ (e + 53) := by
    rw [hsplit]
    norm_num at hm ⊢
    nlinarith
  by_cases hmin : e = -1074
  · exact .inl ⟨h.min_le, hlt, .inr hmin⟩
  by_cases hle : 2 ^ (e + 52) ≤ q
  · exact .inl ⟨h.min_le, hlt, .inl hle⟩
  -- the number is below the least power of two with this exponent, so the float is that power
  refine .inr ?_
  have hle' := h.le.resolve_right hmin
  have hm' : m = 2 ^ 52 := by
    by_contra hne
    have hge : (2 : ℚ) ^ 52 + 1 ≤ m := by exact_mod_cast (show 2 ^ 52 + 1 ≤ m by omega)
    have hprod := mul_le_mul_of_nonneg_right hge hpow.le
    rw [hsplit] at hle
    norm_num at hle hprod
    linarith
  subst hm'
  have hmin' := h.min_le
  refine ⟨rfl, by omega, by omega, ?_, .inl ?_⟩
  · have hexp : e - 1 + 53 = e + 52 := by ring
    rw [hexp]
    exact not_le.1 hle
  · have hexp : e - 1 + 52 = e + 51 := by ring
    rw [hexp, hsplit]
    push_cast at hq
    norm_num at hq ⊢
    linarith

/-- A significand of one bit too many is a power of two, with the next exponent. -/
theorem shiftToTargetExponent_carry (he : -1074 < e) :
    UnpackedFloat.shiftToTargetExponent .binary64 (2 ^ 53) (e - 1) .exact =
      (⟨2 ^ 52, false, false⟩, e) := by
  have htarget : Format.binary64.targetExponent (totalExponent (2 ^ 53) (e - 1)) = e := by
    rw [targetExponent_eq, totalExponent, Nat.log2_two_pow]
    push_cast
    omega
  have hk : (e - (e - 1)).toNat = 1 := by omega
  simp only [UnpackedFloat.shiftToTargetExponent, htarget, shiftToExponent, hk]
  refine Prod.ext rfl ?_
  push_cast
  ring

/-- Rounding shifts a number to its exponent, and what is rounded is shifted once more. -/
theorem roundWithAccuracy_of_shifted (h : IsCanonical m e) {m' : ℕ} {e' e₁ : ℤ} {rest : Accuracy}
    {em : ExtendedMantissa}
    (hfirst : UnpackedFloat.shiftToTargetExponent .binary64 m' e' rest = (em, e₁))
    (hsecond : UnpackedFloat.shiftToTargetExponent .binary64 em.roundedMantissa e₁ .exact =
      (⟨m, false, false⟩, e)) (sign : Sign) :
    roundWithAccuracy .binary64 sign m' e' rest = .finite sign m e h.pos := by
  rw [roundWithAccuracy, hfirst]
  dsimp only
  rw [hsecond]
  exact dif_neg h.pos.ne'

/-- A number that is close to a float is rounded to it. -/
theorem roundWithAccuracy_eq (h : IsCanonical m e) {m' : ℕ} {e' : ℤ} {rest : Accuracy} {q : ℚ}
    (hq : StandsFor m' e' rest q) (hnear : |q - m * 2 ^ e| < m * 2 ^ e / 2 ^ 54) (sign : Sign) :
    roundWithAccuracy .binary64 sign m' e' rest = .finite sign m e h.pos := by
  have herror := hnear.trans h.error_lt
  rcases h.isExponent_of_near hnear with hexp | ⟨rfl, hmin, hexp⟩
  · obtain ⟨em, hem, hrep⟩ := hq.shiftToTargetExponent hexp
    have hround : em.roundedMantissa = m := hrep.roundedMantissa_eq_of_near herror
    exact h.roundWithAccuracy_of_shifted hem (hround ▸ h.shiftToTargetExponent) sign
  · obtain ⟨em, hem, hrep⟩ := hq.shiftToTargetExponent hexp
    have hhalf : (2 : ℚ) ^ (e - 1) = 2 ^ e / 2 := by rw [zpow_sub_one₀ (by norm_num)]; ring
    -- just below a power of two the unit is half as big, but then the error is smaller too
    have hround : em.roundedMantissa = 2 ^ 53 := by
      refine hrep.roundedMantissa_eq_of_near ?_
      have hsame : ((2 ^ 53 : ℕ) : ℚ) * (2 ^ e / 2) = (2 ^ 52 : ℕ) * 2 ^ e := by
        push_cast
        ring
      rw [hhalf, hsame]
      refine hnear.trans_eq ?_
      push_cast
      ring
    exact h.roundWithAccuracy_of_shifted hem (hround ▸ shiftToTargetExponent_carry hmin) sign

end IsCanonical

end PottsOracle.Binary64
