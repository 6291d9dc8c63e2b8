import PottsOracle.Proofs.Arith.Ordered

/-!
# Exact arithmetic

Over the rationals every operation of a scalar type is the usual one.  This file reads the
operations of `Scalar` back in the words of ordered fields: `Scalar.total` is a sum, `Scalar.dot` a
sum of products, `Scalar.maximum?` a greatest entry.

Rounding is exact on integers, and never off by more than one half (`abs_halfEven_sub_le`).
-/

namespace PottsOracle

namespace Scalar

/-! ## The operations -/

@[simp] lemma lt_rat (x y : Rat) : Scalar.lt x y = decide (x < y) := rfl

@[simp] lemma eq_rat (x y : Rat) : Scalar.eq x y = decide (x = y) := rfl

@[simp] lemma ofNat_rat (n : Nat) : (Scalar.ofNat n : Rat) = n := rfl

@[simp] lemma abs_rat (x : Rat) : Scalar.abs x = |x| := by
  show (if x < 0 then -x else x) = |x|
  split
  · rename_i h
    exact (abs_of_neg h).symm
  · rename_i h
    exact (abs_of_nonneg (not_lt.1 h)).symm

@[simp] lemma isNaN_rat (x : Rat) : Scalar.isNaN x = false := by
  simp [Scalar.isNaN]

@[simp] lemma larger_rat (x y : Rat) : Scalar.larger x y = Max.max x y := by
  unfold Scalar.larger
  rcases lt_or_ge x y with h | h
  · simp [h, max_eq_right h.le]
  · simp [not_lt.2 h, max_eq_left h]

@[simp] lemma max_rat (x y : Rat) : Scalar.max x y = Max.max x y := by
  simp [Scalar.max]

lemma total_rat (xs : List Rat) : Scalar.total xs = xs.sum := by
  rw [List.sum_eq_foldl]
  rfl

/-- A lone product is a sum of products, too. -/
lemma dot_rat (xs ys : List Rat) : Scalar.dot xs ys = (List.zipWith (· * ·) xs ys).sum := by
  unfold Scalar.dot
  split
  · simp
  · exact total_rat _

lemma dot_comm (xs ys : List Rat) : Scalar.dot xs ys = Scalar.dot ys xs := by
  rw [dot_rat, dot_rat, List.zipWith_comm_of_comm fun x y => mul_comm x y]

lemma dot_append {xs vs : List Rat} (h : xs.length = vs.length) (ys ws : List Rat) :
    Scalar.dot (xs ++ ys) (vs ++ ws) = Scalar.dot xs vs + Scalar.dot ys ws := by
  rw [dot_rat, dot_rat, dot_rat, List.zipWith_append h, List.sum_append]

lemma dot_zipWith_add {xs ys : List Rat} (h : xs.length = ys.length) (ws : List Rat) :
    Scalar.dot (List.zipWith (· + ·) xs ys) ws = Scalar.dot xs ws + Scalar.dot ys ws := by
  rw [dot_rat, dot_rat, dot_rat]
  induction xs generalizing ys ws with
  | nil =>
    rw [List.length_eq_zero_iff.1 h.symm]
    simp
  | cons x xs ih =>
    cases ys with
    | nil => cases h
    | cons y ys =>
      cases ws with
      | nil => simp
      | cons w ws =>
        have hrest := ih (by simpa using h) ws
        simp only [List.zipWith_cons_cons, List.sum_cons, hrest]
        ring

lemma dot_map_neg (xs ws : List Rat) : Scalar.dot (xs.map (- ·)) ws = -Scalar.dot xs ws := by
  rw [dot_rat, dot_rat]
  induction xs generalizing ws with
  | nil => rfl
  | cons x xs ih =>
    cases ws with
    | nil => rfl
    | cons w ws =>
      simp only [List.map_cons, List.zipWith_cons_cons, List.sum_cons, ih]
      ring

lemma dot_nonneg {xs ys : List Rat} (hxs : ∀ x ∈ xs, 0 ≤ x) (hys : ∀ y ∈ ys, 0 ≤ y) :
    0 ≤ Scalar.dot xs ys := by
  rw [dot_rat]
  refine List.sum_nonneg ?_
  intro z hz
  obtain ⟨i, hi, rfl⟩ := List.mem_iff_getElem.1 hz
  rw [List.length_zipWith, lt_min_iff] at hi
  rw [List.getElem_zipWith]
  exact mul_nonneg (hxs _ (List.getElem_mem hi.1)) (hys _ (List.getElem_mem hi.2))

lemma dot_replicate_zero (n : Nat) (ws : List Rat) : Scalar.dot (List.replicate n 0) ws = 0 := by
  rw [dot_rat]
  refine List.sum_eq_zero ?_
  intro x hx
  obtain ⟨i, hi, rfl⟩ := List.mem_iff_getElem.1 hx
  simp

/-! ## Greatest and least entries -/

lemma maximum?_rat (xs : List Rat) : Scalar.maximum? xs = xs.max? := by
  have hmax : (Scalar.max : Rat → Rat → Rat) = Max.max := by
    ext x y
    exact max_rat x y
  cases xs with
  | nil => rfl
  | cons x xs => rw [maximum?, hmax, List.max?_cons']

/-- The largest of some numbers that are not negative, with zero where there are none. -/
lemma isGreatest_maximum? {xs : List Rat} (h : ∀ x ∈ xs, 0 ≤ x) :
    IsGreatest (insert 0 {x | x ∈ xs}) ((Scalar.maximum? xs).getD 0) := by
  rw [maximum?_rat]
  cases hmax : xs.max? with
  | none =>
    rw [List.max?_eq_none_iff.1 hmax]
    simp [IsGreatest, upperBounds]
  | some x =>
    obtain ⟨hmem, hle⟩ := List.max?_eq_some_iff.1 hmax
    refine ⟨Or.inr hmem, ?_⟩
    rintro y (rfl | hy)
    · exact h x hmem
    · exact hle y hy

/-- The least of some numbers is negative if and only if one of them is. -/
lemma minimum?_any_lt_zero_iff (xs : List Rat) :
    (Scalar.minimum? xs).any (Scalar.lt · 0) = true ↔ ∃ x ∈ xs, x < 0 := by
  rw [any_minimum?_lt_iff fun x _ => isNaN_rat x]
  simp

end Scalar

/-! ## Rounding -/

/-- Rounding a quotient misses it by at most one half, all said in integers. -/
lemma abs_two_mul_halfEven_sub_le (n : Int) {d : Nat} (hd : 0 < d) :
    |2 * (halfEven n d * d - n)| ≤ d := by
  have hdiv : (d : Int) * (n / d) + n % d = n := Int.mul_ediv_add_emod n d
  have hlow : 0 ≤ n % d := Int.emod_nonneg n (by omega)
  have hhigh : n % d < d := Int.emod_lt_of_pos n (by omega)
  -- either neighbour of the quotient differs from it by a known remainder
  have hbelow : n / d * d - n = -(n % d) := by linarith
  have habove : (n / d + 1) * d - n = d - n % d := by linarith
  unfold halfEven
  simp only
  split_ifs with h1 h2 h3
  · rw [hbelow, abs_le]
    constructor <;> linarith
  · rw [habove, abs_le]
    constructor <;> linarith
  · rw [hbelow, abs_le]
    constructor <;> linarith
  · rw [habove, abs_le]
    constructor <;> linarith

/-- The integer nearest to a rational number is at most one half away. -/
lemma abs_halfEven_sub_le (x : Rat) : |(halfEven x.num x.den : Rat) - x| ≤ 1 / 2 := by
  have hpos : (0 : Rat) < x.den := by exact_mod_cast x.den_pos
  have hint : |2 * (halfEven x.num x.den * x.den - x.num)| ≤ (x.den : Int) :=
    abs_two_mul_halfEven_sub_le x.num x.den_pos
  have hrat : |2 * ((halfEven x.num x.den : Rat) * x.den - x.num)| ≤ x.den := by
    exact_mod_cast hint
  have hx : x * x.den = x.num := Rat.mul_den_eq_num x
  rw [← hx, ← sub_mul, ← mul_assoc, abs_mul, abs_of_pos hpos] at hrat
  have hone : |2 * ((halfEven x.num x.den : Rat) - x)| ≤ 1 :=
    le_of_mul_le_mul_right (by linarith) hpos
  rw [abs_mul, abs_of_pos two_pos] at hone
  linarith

/-- Integers are not changed by rounding. -/
lemma halfEven_intCast (k : Int) : halfEven (k : Rat).num (k : Rat).den = k := by
  have hden : (k : Rat).den = 1 := Rat.den_intCast k
  have hnum : (k : Rat).num = k := Rat.num_intCast k
  rw [hden, hnum]
  simp [halfEven]

/-- Rounding keeps the order: numbers that are rounded apart lie on different sides of a half. -/
lemma halfEven_mono {x y : Rat} (h : x ≤ y) : halfEven x.num x.den ≤ halfEven y.num y.den := by
  by_contra hlt
  have hx := (abs_le.1 (abs_halfEven_sub_le x)).2
  have hy := (abs_le.1 (abs_halfEven_sub_le y)).1
  have hone : (halfEven y.num y.den : Rat) + 1 ≤ halfEven x.num x.den := by
    exact_mod_cast not_le.1 hlt
  have heq : x = y := le_antisymm h (by linarith)
  rw [heq] at hlt
  exact hlt le_rfl

end PottsOracle
