import PottsOracle.Proofs.Arith.Ordered
import PottsOracle.Proofs.Arith.Unpacked

/-!
# The values of floats

Every finite float has an exact value. Sign, exponent and significand put floats in the order of
their values (`Binary64.rank_lt_iff`), so that comparisons of finite floats are comparisons of
numbers (`Binary64.lt_iff_of_value`, `Binary64.le_iff_of_value`).
-/

namespace PottsOracle

namespace Binary64

open Float.Model Float.Model.UnpackedFloat

variable {x y : Float} {p q : Rat} {m m' : ℕ} {e e' : ℤ}

/-- The exact value of a float that is finite. -/
def value? (x : Float) : Option Rat :=
  match decode x with
  | .finite negative significand exponent =>
    some ((if negative then -1 else 1) * significand * 2 ^ exponent)
  | .infinite _ | .notANumber => none

/-- What has a value is a zero, or has a sign and a size. -/
lemma unpack_of_value (h : value? x = some p) :
    (∃ s, x.toModel.unpack = .zero s ∧ p = 0) ∨
      ∃ (m : ℕ) (e : ℤ) (hm : 0 < m), IsCanonical m e ∧
        (x.toModel.unpack = .finite .positive m e hm ∧ p = m * 2 ^ e ∨
          x.toModel.unpack = .finite .negative m e hm ∧ p = -(m * 2 ^ e)) := by
  rw [value?, decode_eq] at h
  cases hx : x.toModel.unpack with
  | notANumber => simp [hx, Parts.ofUnpacked] at h
  | infinity s => simp [hx, Parts.ofUnpacked] at h
  | zero s =>
    left
    simpa [hx, Parts.ofUnpacked] using h.symm
  | finite s m e hm =>
    right
    refine ⟨m, e, hm, (isCanonical_of_unpack hx).1, ?_⟩
    rw [hx] at h
    cases s with
    | positive =>
      left
      simpa [Parts.ofUnpacked] using h.symm
    | negative =>
      right
      simpa [Parts.ofUnpacked] using h.symm

lemma unpack_of_pos (h : value? x = some p) (hp : 0 < p) :
    ∃ m e, ∃ hm : 0 < m, x.toModel.unpack = .finite .positive m e hm ∧ p = (m : ℚ) * 2 ^ e := by
  rcases unpack_of_value h with ⟨s, -, rfl⟩ | ⟨m, e, hm, -, ⟨hx, rfl⟩ | ⟨-, rfl⟩⟩
  · exact absurd hp (lt_irrefl 0)
  · exact ⟨m, e, hm, hx, rfl⟩
  · exact absurd hp (not_lt.2 (neg_nonpos.2 (by positivity)))

/-- What has no value is an infinity or no number. -/
lemma value?_eq_none_iff :
    value? x = none ↔ (∃ s, x.toModel.unpack = .infinity s) ∨ x.toModel.unpack = .notANumber := by
  rw [value?, decode_eq]
  cases x.toModel.unpack <;> simp [Parts.ofUnpacked]

lemma value?_of_zero {s : Sign} (h : x.toModel.unpack = .zero s) : value? x = some 0 := by
  simp [value?, decode_eq, h, Parts.ofUnpacked]

lemma value?_of_positive {hm : 0 < m} (h : x.toModel.unpack = .finite .positive m e hm) :
    value? x = some ((m : ℚ) * 2 ^ e) := by
  simp [value?, decode_eq, h, Parts.ofUnpacked]

lemma value?_zero : value? 0 = some 0 := by decide +kernel

lemma value?_one : value? 1 = some 1 := by decide +kernel

/-! ## Values and ranks -/

/-- Of two sizes the one with the larger exponent is the larger one, by at least a unit: the other has at
most one bit more in front. -/
lemma IsCanonical.add_one_mul_le (h : IsCanonical m e) (h' : IsCanonical m' e') (he : e < e') :
    ((m : ℚ) + 1) * 2 ^ e ≤ m' * 2 ^ e' := by
  have hlead : 2 ^ 52 ≤ m' := h'.le.resolve_right fun hmin => by
    have hmin' := h.min_le
    omega
  have hm : (m : ℚ) + 1 ≤ 2 ^ 53 := by exact_mod_cast h.lt
  have hm' : (2 : ℚ) ^ 52 ≤ m' := by exact_mod_cast hlead
  calc ((m : ℚ) + 1) * 2 ^ e ≤ 2 ^ 53 * 2 ^ e := by gcongr
    _ = 2 ^ 52 * 2 ^ (e + 1) := by
        rw [zpow_add_one₀ two_ne_zero]
        ring
    _ ≤ m' * 2 ^ e' := by
        gcongr
        · exact one_le_two
        · omega

lemma IsCanonical.mul_lt_mul (h : IsCanonical m e) (h' : IsCanonical m' e') (he : e < e') :
    (m : ℚ) * 2 ^ e < m' * 2 ^ e' := by
  refine lt_of_lt_of_le ?_ (h.add_one_mul_le h' he)
  gcongr
  exact lt_add_one _

lemma IsCanonical.mul_lt_mul_iff (h : IsCanonical m e) (h' : IsCanonical m' e') :
    (m : ℚ) * 2 ^ e < m' * 2 ^ e' ↔ e < e' ∨ e = e' ∧ m < m' := by
  rcases lt_trichotomy e e' with he | rfl | he
  · exact iff_of_true (h.mul_lt_mul h' he) (.inl he)
  · have hpow : (0 : ℚ) < 2 ^ e := by positivity
    simp [mul_lt_mul_iff_left₀ hpow]
  · refine iff_of_false (h'.mul_lt_mul h he).not_gt ?_
    omega

/-- Sign, exponent and significand order floats by their values. -/
theorem rank_lt_iff (hx : value? x = some p) (hy : value? y = some q) :
    rank x.toModel.unpack < rank y.toModel.unpack ↔ p < q := by
  have hpos : ∀ {m : ℕ} (e : ℤ), 0 < m → (0 : ℚ) < m * 2 ^ e := by
    intro m e hm
    positivity
  rcases unpack_of_value hx with ⟨s, hxu, rfl⟩ | ⟨m, e, hm, h, ⟨hxu, rfl⟩ | ⟨hxu, rfl⟩⟩ <;>
    rcases unpack_of_value hy with ⟨t, hyu, rfl⟩ | ⟨m', e', hm', h', ⟨hyu, rfl⟩ | ⟨hyu, rfl⟩⟩ <;>
    rw [hxu, hyu] <;> simp only [rank, Prod.Lex.toLex_lt_toLex]
  · simp
  · simpa using hpos e' hm'
  · simpa using (hpos e' hm').le
  · simpa using (hpos e hm).le
  · simpa using (h.mul_lt_mul_iff h').symm
  · refine iff_of_false (by norm_num) ?_
    linarith [hpos e hm, hpos e' hm']
  · simpa using hpos e hm
  · refine iff_of_true (by norm_num) ?_
    linarith [hpos e hm, hpos e' hm']
  · simp only [neg_lt_neg_iff, neg_inj, h'.mul_lt_mul_iff h]
    simp [eq_comm]

/-- The least float above another positive one is at least a unit above it. -/
lemma add_one_mul_le_of_lt (h : IsCanonical m e) (hx : value? x = some p)
    (hlt : (m : ℚ) * 2 ^ e < p) : ((m : ℚ) + 1) * 2 ^ e ≤ p := by
  have hnonneg : (0 : ℚ) ≤ m * 2 ^ e := by positivity
  obtain ⟨m', e', hm', hxu, rfl⟩ := unpack_of_pos hx (hnonneg.trans_lt hlt)
  obtain ⟨h', -⟩ := isCanonical_of_unpack hxu
  rcases (h.mul_lt_mul_iff h').1 hlt with he | ⟨rfl, hm⟩
  · exact h.add_one_mul_le h' he
  · have hm' : (m : ℚ) + 1 ≤ m' := by exact_mod_cast hm
    gcongr

/-- No value is too large for a float. -/
lemma lt_of_value (hx : value? x = some p) : p < 2 ^ (1024 : ℤ) := by
  rcases le_or_gt p 0 with hp | hp
  · exact hp.trans_lt (by positivity)
  obtain ⟨m, e, hm, hxu, rfl⟩ := unpack_of_pos hx hp
  obtain ⟨h, he⟩ := isCanonical_of_unpack hxu
  have hlt : (m : ℚ) < 2 ^ (53 : ℤ) := by exact_mod_cast h.lt
  calc (m : ℚ) * 2 ^ e < 2 ^ (53 : ℤ) * 2 ^ e := by gcongr
    _ ≤ 2 ^ (53 : ℤ) * 2 ^ (971 : ℤ) := by
        gcongr
        exact one_le_two
    _ = 2 ^ (1024 : ℤ) := by
        rw [← zpow_add₀ two_ne_zero]
        rfl

/-- The infinities are at both ends. -/
lemma rank_mem_Ioo (hx : value? x = some p) :
    rank (.infinity .negative) < rank x.toModel.unpack ∧
      rank x.toModel.unpack < rank (.infinity .positive) := by
  rcases unpack_of_value hx with ⟨s, hxu, -⟩ | ⟨m, e, hm, -, ⟨hxu, -⟩ | ⟨hxu, -⟩⟩ <;>
    rw [hxu] <;> simp [rank, Prod.Lex.toLex_lt_toLex]

/-! ## Comparisons -/

/-- A float equals another one if both are numbers and stand at the same place in the order. -/
lemma unpacked_beq_iff (a b : UnpackedFloat) :
    a.beq b = true ↔ a ≠ .notANumber ∧ b ≠ .notANumber ∧ rank a = rank b := by
  have hself : ∀ s : Sign, compare s s = .eq := by rintro (_ | _) <;> rfl
  rcases a with (_ | _) | _ | _ | ⟨_ | _, m, e, _⟩ <;>
    rcases b with (_ | _) | _ | _ | ⟨_ | _, m', e', _⟩ <;>
    simp [UnpackedFloat.beq, UnpackedFloat.compare, rank, hself]

theorem eq_iff (x y : Float) :
    Scalar.eq x y = true ↔ x.toModel.unpack ≠ .notANumber ∧ y.toModel.unpack ≠ .notANumber ∧
      rank x.toModel.unpack = rank y.toModel.unpack :=
  unpacked_beq_iff x.toModel.unpack y.toModel.unpack

theorem le_iff (x y : Float) :
    Scalar.le x y = true ↔ x.toModel.unpack ≠ .notANumber ∧ y.toModel.unpack ≠ .notANumber ∧
      rank x.toModel.unpack ≤ rank y.toModel.unpack := by
  rw [Scalar.le, Bool.or_eq_true, lt_iff, eq_iff, le_iff_lt_or_eq]
  tauto

lemma ne_notANumber_of_value (h : value? x = some p) : x.toModel.unpack ≠ .notANumber := by
  intro hx
  have hnone : value? x = none := value?_eq_none_iff.2 (.inr hx)
  rw [hnone] at h
  cases h

theorem lt_iff_of_value (hx : value? x = some p) (hy : value? y = some q) :
    Scalar.lt x y = true ↔ p < q := by
  rw [lt_iff, rank_lt_iff hx hy]
  exact ⟨fun h => h.2.2, fun h => ⟨ne_notANumber_of_value hx, ne_notANumber_of_value hy, h⟩⟩

theorem le_iff_of_value (hx : value? x = some p) (hy : value? y = some q) :
    Scalar.le x y = true ↔ p ≤ q := by
  rw [le_iff, ← not_lt, rank_lt_iff hy hx, not_lt]
  exact ⟨fun h => h.2.2, fun h => ⟨ne_notANumber_of_value hx, ne_notANumber_of_value hy, h⟩⟩

theorem eq_iff_of_value (hx : value? x = some p) (hy : value? y = some q) :
    Scalar.eq x y = true ↔ p = q := by
  rw [eq_iff, eq_iff_le_not_lt, ← not_lt, rank_lt_iff hy hx, rank_lt_iff hx hy, not_lt,
    ← eq_iff_le_not_lt]
  exact ⟨fun h => h.2.2, fun h => ⟨ne_notANumber_of_value hx, ne_notANumber_of_value hy, h⟩⟩

lemma eq_zero_eq_false_iff (hx : value? x = some p) : Scalar.eq x 0 = false ↔ p ≠ 0 := by
  rw [← Bool.not_eq_true, eq_iff_of_value hx value?_zero]

lemma isNaN_of_value (hx : value? x = some p) : Scalar.isNaN x = false := by
  rw [Scalar.isNaN, (eq_iff_of_value hx hx).2 rfl]
  rfl

/-- A float between two that have values has a value, too. -/
theorem exists_value_of_le (hx : value? x = some p) (hy : value? y = some q) {z : Float}
    (hxz : Scalar.le x z = true) (hzy : Scalar.le z y = true) :
    ∃ r, value? z = some r ∧ p ≤ r ∧ r ≤ q := by
  cases hz : value? z with
  | some r => exact ⟨r, rfl, (le_iff_of_value hx hz).1 hxz, (le_iff_of_value hz hy).1 hzy⟩
  | none =>
    rw [le_iff] at hxz hzy
    rcases value?_eq_none_iff.1 hz with ⟨s, hinfinity⟩ | hnone
    · rw [hinfinity] at hxz hzy
      cases s with
      | positive => exact absurd (rank_mem_Ioo hy).2 hzy.2.2.not_gt
      | negative => exact absurd (rank_mem_Ioo hx).1 hxz.2.2.not_gt
    · exact absurd hnone hxz.2.1

/-- A float is not less than one that has a value if it is no number, the larger infinity, or has a
value that is not less. -/
theorem lt_eq_false_iff_of_value (hy : value? y = some q) :
    Scalar.lt x y = false ↔ decode x = .notANumber ∨ decode x = .infinite false ∨
      ∃ p, value? x = some p ∧ q ≤ p := by
  have hnumber := ne_notANumber_of_value hy
  cases hx : value? x with
  | some p =>
    have hfinite : decode x ≠ .notANumber ∧ decode x ≠ .infinite false := by
      constructor <;> intro h <;> simp [value?, h] at hx
    rw [← Bool.not_eq_true, lt_iff_of_value hx hy, not_lt]
    simp [hfinite]
  | none =>
    rw [← Bool.not_eq_true, lt_iff, decode_eq]
    rcases value?_eq_none_iff.1 hx with ⟨s, hinfinity⟩ | hnone
    · rw [hinfinity]
      cases s with
      | positive => simpa [Parts.ofUnpacked, hnumber] using (rank_mem_Ioo hy).2.le
      | negative => simpa [Parts.ofUnpacked, hnumber] using (rank_mem_Ioo hy).1
    · simp [hnone, Parts.ofUnpacked]

/-! ## Sizes and largest numbers -/

lemma value?_abs (hx : value? x = some p) : value? (Scalar.abs x) = some |p| := by
  rcases unpack_of_value hx with ⟨s, hu, rfl⟩ | ⟨m, e, hm, -, ⟨hu, rfl⟩ | ⟨hu, rfl⟩⟩
  · have habs : (Scalar.abs x).toModel.unpack = .zero .positive := by rw [unpack_abs, hu]; rfl
    rw [value?_of_zero habs, abs_zero]
  · have habs : (Scalar.abs x).toModel.unpack = .finite .positive m e hm := by
      rw [unpack_abs, hu]
      rfl
    rw [value?_of_positive habs, abs_of_nonneg (by positivity)]
  · have habs : (Scalar.abs x).toModel.unpack = .finite .positive m e hm := by
      rw [unpack_abs, hu]
      rfl
    rw [value?_of_positive habs, abs_neg, abs_of_nonneg (by positivity)]

lemma value?_larger (hx : value? x = some p) (hy : value? y = some q) :
    value? (Scalar.larger x y) = some (max p q) := by
  rw [Scalar.larger]
  split_ifs with hlt
  · rw [lt_iff_of_value hx hy] at hlt
    rw [max_eq_right hlt.le, hy]
  · rw [lt_iff_of_value hx hy, not_lt] at hlt
    rw [max_eq_left hlt, hx]

lemma value?_max (hx : value? x = some p) (hy : value? y = some q) :
    value? (Scalar.max x y) = some (max p q) := by
  rw [Scalar.max, isNaN_of_value hx, isNaN_of_value hy]
  exact value?_larger hx hy

/-- The largest of some numbers is the least bound of them. -/
lemma exists_value_foldl_max {ys : List Float} (hx : value? x = some p)
    (hys : ∀ y ∈ ys, ∃ q, value? y = some q) :
    ∃ r, value? (ys.foldl Scalar.max x) = some r ∧
      ∀ b, r ≤ b ↔ p ≤ b ∧ ∀ y ∈ ys, ∃ q, value? y = some q ∧ q ≤ b := by
  induction ys generalizing x p with
  | nil => exact ⟨p, hx, by simp⟩
  | cons y ys ih =>
    obtain ⟨q, hq⟩ := hys y List.mem_cons_self
    obtain ⟨r, hr, hle⟩ := ih (value?_max hx hq) fun z hz => hys z (List.mem_cons_of_mem y hz)
    refine ⟨r, hr, fun b => ?_⟩
    rw [hle, max_le_iff, List.forall_mem_cons, and_assoc]
    simp only [hq, Option.some.injEq, exists_eq_left']

/-- Of numbers that are not negative there is a largest one, which is zero if there are none. -/
lemma exists_value_maximum {xs : List Float} (hxs : ∀ x ∈ xs, ∃ q, value? x = some q ∧ 0 ≤ q) :
    ∃ r, value? ((Scalar.maximum? xs).getD 0) = some r ∧ 0 ≤ r ∧
      ∀ b, 0 ≤ b → (r ≤ b ↔ ∀ x ∈ xs, ∃ q, value? x = some q ∧ q ≤ b) := by
  cases xs with
  | nil => exact ⟨0, value?_zero, le_rfl, by simp⟩
  | cons x xs =>
    obtain ⟨p, hp, hnonneg⟩ := hxs x List.mem_cons_self
    obtain ⟨r, hr, hle⟩ := exists_value_foldl_max hp fun y hy =>
      (hxs y (List.mem_cons_of_mem x hy)).imp fun _ hq => hq.1
    refine ⟨r, hr, hnonneg.trans ((hle r).1 le_rfl).1, fun b _ => ?_⟩
    rw [hle, List.forall_mem_cons]
    simp only [hp, Option.some.injEq, exists_eq_left']

/-! ## Integers -/

lemma exists_nearest_of_value (hx : value? x = some p) : ∃ n, nearest x = .ok n := by
  cases h : decode x with
  | finite negative significand exponent => exact ⟨_, by rw [nearest, h]⟩
  | infinite negative => simp [value?, h] at hx
  | notANumber => simp [value?, h] at hx

lemma nearest_of_infinity {s : Sign} (h : x.toModel.unpack = .infinity s) :
    nearest x = .error .infinite := by
  rw [nearest, decode_eq, h]
  rfl

end Binary64

end PottsOracle
