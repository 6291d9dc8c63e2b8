import PottsOracle.Proofs.Dataset.Accepted
import PottsOracle.Feature.Joint

/-!
# The least layout of a dataset

A block of the least layout is as long as the largest extent of the vectors that go into it
(`LabeledGraph.dims_leastLayout_le_iff`).  If the vectors follow one standard, all of them fit.
-/

namespace PottsOracle

variable {K : Type}

lemma foldl_max_le_iff (xs : List ℤ) (a b : ℤ) :
    xs.foldl max a ≤ b ↔ a ≤ b ∧ ∀ x ∈ xs, x ≤ b := by
  induction xs generalizing a with
  | nil => simp
  | cons x xs ih =>
    rw [List.foldl_cons, ih, max_le_iff, List.forall_mem_cons, and_assoc]

namespace FeatureVector

/-- The extent of a sparse vector is the least bound of its indices. -/
lemma extent_sparse_le_iff {terms : List (ℤ × K)} {b : ℤ} (hb : 0 ≤ b) :
    (sparse terms).extent ≤ b ↔ ∀ term ∈ terms, term.1 < b := by
  cases terms with
  | nil => exact iff_of_true hb fun term hterm => absurd hterm List.not_mem_nil
  | cons first terms =>
    rw [List.forall_mem_cons, extent, Int.add_one_le_iff, ← Int.le_sub_one_iff,
      foldl_max_le_iff, List.forall_mem_map]
    simp only [Int.le_sub_one_iff]

end FeatureVector

namespace FeatureLayout

lemma dims_join (a b : FeatureLayout) (block : FeatureBlock) :
    (a.join b).dims block = max (a.dims block) (b.dims block) := by
  cases block <;> rfl

lemma dims_foldl_join_le_iff {layouts : List FeatureLayout} {start : FeatureLayout}
    {block : FeatureBlock} {b : ℤ} :
    (layouts.foldl join start).dims block ≤ b ↔
      start.dims block ≤ b ∧ ∀ layout ∈ layouts, layout.dims block ≤ b := by
  induction layouts generalizing start with
  | nil => simp
  | cons layout layouts ih =>
    rw [List.foldl_cons, ih, dims_join, max_le_iff, List.forall_mem_cons, and_assoc]

end FeatureLayout

namespace LabeledGraph

/-- The vectors that go into a block. -/
def vectors (g : LabeledGraph K) : FeatureBlock → List (FeatureVector K)
  | .node => g.nodes
  | .edge => g.edgeVectors

variable {graphs : List (LabeledGraph K)} {g : LabeledGraph K} {block : FeatureBlock}
  {v : FeatureVector K}

lemma kind_of_mem_vectors (h : v ∈ g.vectors block) : v.kind = g.kind := by
  cases block with
  | node => exact g.kind_of_mem_nodes v h
  | edge => exact g.kind_of_mem_edgeVectors v h

lemma dims_ofVectors (g : LabeledGraph K) (block : FeatureBlock) :
    (FeatureLayout.ofVectors g.nodes g.edgeVectors).dims block =
      ((g.vectors block).map (·.extent)).foldl max 0 := by
  cases block <;> rfl

lemma dims_leastLayout_le_iff {b : ℤ} :
    (leastLayout graphs).dims block ≤ b ↔
      0 ≤ b ∧ ∀ g ∈ graphs, ∀ v ∈ g.vectors block, v.extent ≤ b := by
  have hempty : FeatureLayout.empty.dims block = 0 := by cases block <;> rfl
  rw [leastLayout, FeatureLayout.dims_foldl_join_le_iff, hempty, List.forall_mem_map]
  simp only [dims_ofVectors, foldl_max_le_iff, List.forall_mem_map]
  constructor
  · rintro ⟨hb, h⟩
    exact ⟨hb, fun g hg => (h g hg).2⟩
  · rintro ⟨hb, h⟩
    exact ⟨hb, fun g hg => ⟨hb, h g hg⟩⟩

lemma dims_leastLayout_nonneg : 0 ≤ (leastLayout graphs).dims block :=
  (dims_leastLayout_le_iff.1 le_rfl).1

lemma extent_le_dims_leastLayout (hg : g ∈ graphs) (hv : v ∈ g.vectors block) :
    v.extent ≤ (leastLayout graphs).dims block :=
  (dims_leastLayout_le_iff.1 le_rfl).2 g hg v hv

/-- A sparse vector without negative indices fits a block that is not shorter than its extent. -/
lemma fits_iff_extent_le {layout : FeatureLayout} (hdims : 0 ≤ layout.dims block)
    (hkind : v.kind = .sparse) (hindex : v.hasNegativeIndex = false) :
    layout.Fits block v ↔ v.extent ≤ layout.dims block := by
  cases v with
  | dense entries => cases hkind
  | sparse terms =>
    rw [FeatureVector.extent_sparse_le_iff hdims]
    refine forall₂_congr fun term hterm => ?_
    have hnonneg : 0 ≤ term.1 := by
      rw [FeatureVector.hasNegativeIndex, List.any_eq_false] at hindex
      simpa using hindex term hterm
    exact ⟨And.right, fun hlt => ⟨hnonneg, hlt⟩⟩

/-- Vectors of one representation that are sound under one length fit the least layout. -/
lemma fits_leastLayout {kind : FeatureKind} {dims : Option Nat}
    (hkind : ∀ g ∈ graphs, g.kind = kind)
    (hsound : ∀ g ∈ graphs, ∀ v ∈ g.vectors block, v.IsSound dims)
    (hg : g ∈ graphs) (hv : v ∈ g.vectors block) : (leastLayout graphs).Fits block v := by
  have hextent := extent_le_dims_leastLayout hg hv
  have hown := hsound g hg v hv
  have hvkind : v.kind = kind := (kind_of_mem_vectors hv).trans (hkind g hg)
  cases v with
  | dense entries =>
    refine le_antisymm hextent (dims_leastLayout_le_iff.2 ⟨Int.natCast_nonneg _, ?_⟩)
    intro other hother u hu
    have hukind : u.kind = kind := (kind_of_mem_vectors hu).trans (hkind other hother)
    have hlength := (hsound other hother u hu).hasLength
    cases u with
    | dense others =>
      have hsame : some others.length = some entries.length := hlength.symm.trans hown.hasLength
      rw [Option.some.injEq] at hsame
      exact le_of_eq (congrArg Nat.cast hsame)
    | sparse terms =>
      -- all vectors are dense
      rw [← hvkind] at hukind
      cases hukind
  | sparse terms => exact (fits_iff_extent_le dims_leastLayout_nonneg rfl hown.index_nonneg).2 hextent

end LabeledGraph

/-- The length that a standard sets for the vectors of a block. -/
def Standard.dims (standard : Standard) : FeatureBlock → Option Nat
  | .node => standard.nodeDims
  | .edge => standard.edgeDims

/-- The vectors of a graph without defects are sound. -/
lemma Dataset.Accepted.isSound [Scalar K] {standard : Standard} {g : LabeledGraph K} {y : Labeling}
    (h : Accepted standard g y) {block : FeatureBlock} {v : FeatureVector K}
    (hv : v ∈ g.vectors block) : v.IsSound (standard.dims block) := by
  cases block with
  | node => exact h.node v hv
  | edge => exact (h.edge v hv).toIsSound

end PottsOracle
