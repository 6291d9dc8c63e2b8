import PottsOracle.Proofs.Arith.Exact
import PottsOracle.Feature.Vector

/-!
# Terms and entries

A list of terms stands for entries if the values for every entry sum to it (`StandsFor`): in any
order, with zeros or without, and an entry possibly split into several terms.  The terms then weigh
what the entries weigh (`StandsFor.dot_eq`).
-/

namespace PottsOracle

namespace Scalar

lemma dot_eq_sum_range {xs ys : List Rat} (h : xs.length = ys.length) :
    Scalar.dot xs ys = ∑ k ∈ Finset.range ys.length, xs.getD k 0 * ys.getD k 0 := by
  rw [dot_rat]
  induction xs generalizing ys with
  | nil => simp [List.length_eq_zero_iff.1 h.symm]
  | cons x xs ih =>
    cases ys with
    | nil => cases h
    | cons y ys =>
      rw [List.zipWith_cons_cons, List.sum_cons, List.length_cons, Finset.sum_range_succ',
        ih (by simpa using h), add_comm]
      simp

end Scalar

namespace FeatureVector

variable {K : Type} {v : FeatureVector K}

/-- The terms of a sparse vector. -/
def terms : FeatureVector K → List (ℤ × K)
  | dense _ => []
  | sparse terms => terms

/-- The entries of a dense vector. -/
def entries : FeatureVector K → List K
  | dense entries => entries
  | sparse _ => []

lemma eq_sparse_terms (h : v.kind = .sparse) : v = .sparse v.terms := by
  cases v with
  | dense entries => cases h
  | sparse terms => rfl

lemma eq_dense_entries (h : v.kind = .dense) : v = .dense v.entries := by
  cases v with
  | dense entries => rfl
  | sparse terms => cases h

/-- An entry is the sum of the values that stand for it. -/
lemma coordinate_sparse (terms : List (ℤ × Rat)) (k : Nat) :
    (sparse terms).coordinate k = (terms.map fun t => if t.1 = (k : ℤ) then t.2 else 0).sum := by
  rw [coordinate, Scalar.total_rat]
  induction terms with
  | nil => rfl
  | cons t terms ih =>
    by_cases ht : t.1 = k
    · simp [ht, ih]
    · simp [ht, ih]

/-- Terms have the sum under weights that their entries have. -/
lemma sum_coordinate_mul {terms : List (ℤ × Rat)} {n : Nat}
    (h : ∀ t ∈ terms, 0 ≤ t.1 ∧ t.1 < n) (f : Nat → Rat) :
    ∑ k ∈ Finset.range n, f k * (sparse terms).coordinate k =
      (terms.map fun t => f t.1.toNat * t.2).sum := by
  simp only [coordinate_sparse]
  induction terms with
  | nil => simp
  | cons t terms ih =>
    obtain ⟨ht0, ht⟩ := h t List.mem_cons_self
    have hone : ∀ k : Nat, t.1 = (k : ℤ) ↔ t.1.toNat = k := by omega
    simp only [List.map_cons, List.sum_cons, mul_add, Finset.sum_add_distrib,
      ih fun u hu => h u (List.mem_cons_of_mem t hu)]
    congr 1
    simp only [hone, mul_ite, mul_zero, Finset.sum_ite_eq, Finset.mem_range]
    exact if_pos (by omega)

/-- Terms stand for entries: every one has its place among them, and those for an entry sum to
it. -/
structure StandsFor (terms : List (ℤ × Rat)) (entries : List Rat) : Prop where
  place : ∀ t ∈ terms, 0 ≤ t.1 ∧ t.1 < entries.length
  coordinate_eq : ∀ k < entries.length, (sparse terms).coordinate k = entries.getD k 0

instance (terms : List (ℤ × Rat)) (entries : List Rat) : Decidable (StandsFor terms entries) :=
  decidable_of_iff ((∀ t ∈ terms, 0 ≤ t.1 ∧ t.1 < entries.length) ∧
      ∀ k < entries.length, (sparse terms).coordinate k = entries.getD k 0)
    ⟨fun h => ⟨h.1, h.2⟩, fun h => ⟨h.place, h.coordinate_eq⟩⟩

/-- Terms weigh what the entries weigh that they stand for. -/
lemma StandsFor.dot_eq {terms : List (ℤ × Rat)} {entries weights : List Rat}
    (h : StandsFor terms entries) (hlength : weights.length = entries.length) :
    Scalar.dot weights entries = (terms.map fun t => weights.getD t.1.toNat 0 * t.2).sum := by
  rw [Scalar.dot_eq_sum_range hlength, ← sum_coordinate_mul h.place fun k => weights.getD k 0]
  refine Finset.sum_congr rfl fun k hk => ?_
  rw [h.coordinate_eq k (Finset.mem_range.1 hk)]

/-! ## The terms that are not zero -/

lemma coordinate_filterMap (pairs : List (Rat × Nat)) (k : Nat) :
    (sparse (pairs.filterMap fun (x, i) =>
      if Scalar.eq x 0 then none else some ((i : ℤ), x))).coordinate k =
      (pairs.map fun p => if p.2 = k then p.1 else 0).sum := by
  rw [coordinate_sparse]
  induction pairs with
  | nil => rfl
  | cons p pairs ih =>
    by_cases hp : p.1 = 0
    · simpa [hp] using ih
    · simpa [hp] using ih

lemma sum_zipIdx (entries : List Rat) (start k : Nat) :
    ((entries.zipIdx start).map fun p => if p.2 = k then p.1 else 0).sum =
      if start ≤ k then entries.getD (k - start) 0 else 0 := by
  induction entries generalizing start with
  | nil => simp
  | cons x entries ih =>
    rw [List.zipIdx_cons, List.map_cons, List.sum_cons, ih]
    rcases lt_trichotomy start k with hlt | rfl | hgt
    · have hindex : k - start = k - (start + 1) + 1 := by omega
      rw [if_neg hlt.ne, if_pos (Nat.succ_le_of_lt hlt), if_pos hlt.le, hindex,
        List.getD_cons_succ, zero_add]
    · simp
    · rw [if_neg hgt.ne', if_neg (by omega), if_neg (by omega), zero_add]

/-- A term for every entry that is not zero: these stand for all entries. -/
theorem standsFor_nonzeroTerms (entries : List Rat) : StandsFor (nonzeroTerms entries) entries := by
  constructor
  · intro t ht
    obtain ⟨⟨x, i⟩, hmem, hsome⟩ := List.mem_filterMap.1 ht
    have hlt : i < entries.length := by simpa using List.snd_lt_of_mem_zipIdx hmem
    by_cases hx : x = 0
    · simp [hx] at hsome
    · obtain rfl : ((i : ℤ), x) = t := by simpa [hx] using hsome
      dsimp only
      omega
  · intro k _
    rw [nonzeroTerms, coordinate_filterMap, sum_zipIdx, if_pos k.zero_le, Nat.sub_zero]

end FeatureVector

end PottsOracle
