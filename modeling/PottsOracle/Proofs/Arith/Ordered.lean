import Mathlib.Data.Prod.Lex
import Mathlib.Tactic
import PottsOracle.Arith.Binary64
import PottsOracle.Arith.HalfEven

/-!
# The order of scalars

Of two numbers either one is smaller or they are level, and being smaller is transitive; what is no
number is neither smaller nor larger than anything.  `Scalar.IsOrdered` says this of a scalar type.
It holds of the rationals, and of floats, of which `Binary64.lt_iff` describes the order: first by sign, then by
exponent, then by significand.

In an ordered scalar type the least entry of a list is below a bound if and only if some entry is
(`Scalar.any_minimum?_lt_iff`).
-/

namespace PottsOracle

namespace Scalar

/-- The numbers of a scalar type are strictly ordered, up to numbers that are level. -/
class IsOrdered (K : Type) [Scalar K] : Prop where
  lt_trans {x y z : K} : lt x y = true → lt y z = true → lt x z = true
  lt_or_lt {x y z : K} : isNaN x = false → lt y z = true → lt y x = true ∨ lt x z = true

instance : IsOrdered Rat where
  lt_trans {x y z} hxy hyz := by
    have hxy : x < y := of_decide_eq_true hxy
    exact decide_eq_true (hxy.trans (of_decide_eq_true hyz))
  lt_or_lt {x y z} _ hyz := by
    have hyz : y < z := of_decide_eq_true hyz
    rcases lt_or_ge y x with h | h
    · exact Or.inl (decide_eq_true h)
    · exact Or.inr (decide_eq_true (h.trans_lt hyz))

variable {K : Type} [Scalar K]

lemma min_eq {x y : K} (hx : isNaN x = false) (hy : isNaN y = false) :
    Scalar.min x y = if lt y x then y else x := by
  simp [Scalar.min, hx, hy]

lemma isNaN_min {x y : K} (hx : isNaN x = false) (hy : isNaN y = false) :
    isNaN (Scalar.min x y) = false := by
  rw [min_eq hx hy]
  split
  · exact hy
  · exact hx

variable [IsOrdered K]

lemma min_lt_iff {x y b : K} (hx : isNaN x = false) (hy : isNaN y = false) :
    lt (Scalar.min x y) b = true ↔ lt x b = true ∨ lt y b = true := by
  rw [min_eq hx hy]
  split
  · rename_i hyx
    exact ⟨Or.inr, fun h => h.elim (IsOrdered.lt_trans hyx) id⟩
  · rename_i hyx
    refine ⟨Or.inl, ?_⟩
    rintro (h | h)
    · exact h
    · exact (IsOrdered.lt_or_lt hx h).resolve_left hyx

lemma foldl_min_lt_iff {xs : List K} (hxs : ∀ x ∈ xs, isNaN x = false) {a : K}
    (ha : isNaN a = false) (b : K) :
    lt (xs.foldl Scalar.min a) b = true ↔ lt a b = true ∨ ∃ x ∈ xs, lt x b = true := by
  induction xs generalizing a with
  | nil => simp
  | cons x xs ih =>
    have hx : isNaN x = false := hxs x List.mem_cons_self
    rw [List.foldl_cons, ih (fun y hy => hxs y (List.mem_cons_of_mem x hy)) (isNaN_min ha hx),
      min_lt_iff ha hx, List.exists_mem_cons_iff, or_assoc]

/-- The least of some numbers is below a bound if and only if one of them is. -/
theorem any_minimum?_lt_iff {xs : List K} (hxs : ∀ x ∈ xs, isNaN x = false) (b : K) :
    (minimum? xs).any (lt · b) = true ↔ ∃ x ∈ xs, lt x b = true := by
  cases xs with
  | nil => simp [minimum?]
  | cons a xs =>
    rw [minimum?, Option.any_some,
      foldl_min_lt_iff (fun x hx => hxs x (List.mem_cons_of_mem a hx)) (hxs a List.mem_cons_self),
      List.exists_mem_cons_iff]

end Scalar

/-! ## Floats -/

namespace Binary64

open Float.Model

/-- Where a float stands in the order: the infinities at both ends, a zero in the middle, and finite
floats of a sign by exponent and significand. -/
def rank : UnpackedFloat → ℤ ×ₗ ℤ ×ₗ ℤ
  | .notANumber | .zero _ => toLex (0, toLex (0, 0))
  | .infinity .negative => toLex (-2, toLex (0, 0))
  | .infinity .positive => toLex (2, toLex (0, 0))
  | .finite .negative m e _ => toLex (-1, toLex (-e, -m))
  | .finite .positive m e _ => toLex (1, toLex (e, m))

lemma magnitude_lt_iff {e e' : ℤ} {m m' : Nat} :
    (compare e e').then (compare m m') = .lt ↔ e < e' ∨ e = e' ∧ m < m' := by
  rw [Ordering.then_eq_lt, compare_lt_iff_lt, compare_eq_iff_eq, compare_lt_iff_lt]

lemma magnitude_gt_iff {e e' : ℤ} {m m' : Nat} :
    (compare e e').then (compare m m') = .gt ↔ e' < e ∨ e = e' ∧ m' < m := by
  rw [Ordering.then_eq_gt, compare_gt_iff_gt, compare_eq_iff_eq, compare_gt_iff_gt]

lemma sign_lt_iff {s t : UnpackedFloat.Sign} :
    compare s t = .lt ↔ s = .negative ∧ t = .positive := by
  cases s <;> cases t <;> simp [compare]

lemma finite_ne_notANumber {s : UnpackedFloat.Sign} {m : Nat} {e : ℤ} (h : 0 < m) :
    UnpackedFloat.finite s m e h ≠ .notANumber := nofun

/-- A float is smaller than another one if both are numbers and it comes first. -/
lemma unpacked_lt_iff (a b : UnpackedFloat) :
    a.lt b = true ↔ a ≠ .notANumber ∧ b ≠ .notANumber ∧ rank a < rank b := by
  -- a table of the shapes of both: sizes are compared only between finite floats of one sign
  rcases a with (_ | _) | _ | _ | ⟨_ | _, m, e, _⟩ <;>
    rcases b with (_ | _) | _ | _ | ⟨_ | _, m', e', _⟩ <;>
    dsimp only [UnpackedFloat.lt, UnpackedFloat.compare, rank] <;>
    simp [↓ne_eq, ↓finite_ne_notANumber, Prod.Lex.toLex_lt_toLex, sign_lt_iff, magnitude_lt_iff,
      magnitude_gt_iff]

theorem lt_iff (x y : Float) :
    Scalar.lt x y = true ↔ x.toModel.unpack ≠ .notANumber ∧ y.toModel.unpack ≠ .notANumber ∧
      rank x.toModel.unpack < rank y.toModel.unpack := by
  rw [← unpacked_lt_iff]
  exact decide_eq_true_iff

/-- Only what is no number differs from itself. -/
lemma ne_notANumber {x : Float} (h : Scalar.isNaN x = false) :
    x.toModel.unpack ≠ .notANumber := by
  intro hx
  have hself : Scalar.eq x x = false := by
    show x.toModel.unpack.beq x.toModel.unpack = false
    rw [hx]
    rfl
  rw [Scalar.isNaN, hself] at h
  cases h

end Binary64

instance : Scalar.IsOrdered Float where
  lt_trans {x y z} hxy hyz := by
    rw [Binary64.lt_iff] at hxy hyz ⊢
    exact ⟨hxy.1, hyz.2.1, hxy.2.2.trans hyz.2.2⟩
  lt_or_lt {x y z} hx hyz := by
    simp only [Binary64.lt_iff] at hyz ⊢
    have hnumber := Binary64.ne_notANumber hx
    rcases lt_or_ge (Binary64.rank y.toModel.unpack) (Binary64.rank x.toModel.unpack) with h | h
    · exact Or.inl ⟨hyz.1, hnumber, h⟩
    · exact Or.inr ⟨hnumber, hyz.2.1, h.trans_lt hyz.2.2⟩

end PottsOracle
