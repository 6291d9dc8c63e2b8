import PottsOracle.Proofs.Dataset.WellFormed
import PottsOracle.Proofs.Feature.Misfit

/-!
# The least layout that fits

A vector passes under a layout if it can be put into its block and scored there, whatever else the
joint feature vector holds and whatever the weights are.  That is to fit
(`FeatureLayout.passes_iff_fits`).  So the least layout of some graphs is the least one under which
all their sparse vectors pass, and the only one under which equally long dense vectors pass
(`LabeledGraph.passes_iff_leastLayout`).

The least layout is known by the bounds that it keeps (`LabeledGraph.dims_leastLayout_le_iff`), from
which it follows that joining lists of graphs joins their layouts.
-/

namespace PottsOracle

variable {K : Type}

namespace FeatureLayout

variable {layout : FeatureLayout} {block : FeatureBlock} {v : FeatureVector K}

/-- Layouts are the same if their blocks are equally long. -/
lemma eq_of_dims_eq {a b : FeatureLayout} (h : ∀ block, a.dims block = b.dims block) : a = b := by
  obtain ⟨nodeDims, edgeDims⟩ := a
  obtain rfl : nodeDims = b.nodeDims := h .node
  obtain rfl : edgeDims = b.edgeDims := h .edge
  rfl

variable [Scalar K]

/-- A vector passes in a block: every joint feature vector of its representation takes it, and it
has a score under all weights. -/
structure Passes (layout : FeatureLayout) (block : FeatureBlock) (v : FeatureVector K) : Prop where
  taken : ∀ psi : FeatureVector K, psi.kind = v.kind → layout.Holds psi →
    (layout.contribute block psi v).failure = none
  scored : ∀ weights : List K, weights.length = layout.total →
    ∃ s, layout.blockScore block weights v = .ok s

lemma passes_iff_fits (hdims : ∀ block, 0 ≤ layout.dims block) :
    layout.Passes block v ↔ layout.Fits block v := by
  constructor
  · intro h
    -- the empty joint feature vector is enough
    have hholds : layout.Holds (layout.zeros v.kind : FeatureVector K) :=
      holds_zeros (total_nonneg hdims) v.kind
    have hnone := h.taken (layout.zeros v.kind) (kind_zeros v.kind) hholds
    rw [(isCall_contribute hdims hholds (kind_zeros v.kind).symm).failure_eq,
      Option.map_eq_none_iff] at hnone
    exact misfit?_eq_none_iff.1 hnone
  · intro h
    constructor
    · intro psi hkind hholds
      rw [(isCall_contribute hdims hholds hkind.symm).failure_eq, misfit?_eq_none_iff.2 h]
      rfl
    · exact fun weights hweights => exists_blockScore hweights (hdims .node) (hdims .edge) h

end FeatureLayout

namespace LabeledGraph

open FeatureLayout

variable {graphs others : List (LabeledGraph K)} {layout : FeatureLayout} {block : FeatureBlock}

/-! ## Lists of graphs -/

lemma leastLayout_append (graphs others : List (LabeledGraph K)) :
    leastLayout (graphs ++ others) = (leastLayout graphs).join (leastLayout others) := by
  refine eq_of_dims_eq fun block => eq_of_forall_ge_iff fun b => ?_
  rw [dims_join, max_le_iff, dims_leastLayout_le_iff, dims_leastLayout_le_iff,
    dims_leastLayout_le_iff, List.forall_mem_append, and_and_left]

lemma leastLayout_perm (h : graphs.Perm others) : leastLayout graphs = leastLayout others := by
  refine eq_of_dims_eq fun block => eq_of_forall_ge_iff fun b => ?_
  simp only [dims_leastLayout_le_iff, h.mem_iff]

lemma leastLayout_of_vectors_eq_nil (h : ∀ g ∈ graphs, ∀ block, g.vectors block = []) :
    leastLayout graphs = .empty := by
  refine eq_of_dims_eq fun block => le_antisymm (dims_leastLayout_le_iff.2 ⟨?_, ?_⟩) ?_
  · cases block <;> exact le_rfl
  · intro g hg v hv
    rw [h g hg block] at hv
    cases hv
  · cases block <;> exact dims_leastLayout_nonneg

/-! ## Layouts that fit -/

/-- Sparse vectors fit exactly the blocks that are not shorter than that of the least layout. -/
lemma fits_iff_dims_leastLayout_le (hdims : 0 ≤ layout.dims block)
    (hkind : ∀ g ∈ graphs, g.kind = .sparse)
    (hindex : ∀ g ∈ graphs, ∀ v ∈ g.vectors block, v.hasNegativeIndex = false) :
    (∀ g ∈ graphs, ∀ v ∈ g.vectors block, layout.Fits block v) ↔
      (leastLayout graphs).dims block ≤ layout.dims block := by
  rw [dims_leastLayout_le_iff]
  have hvector : ∀ g ∈ graphs, ∀ v ∈ g.vectors block,
      (layout.Fits block v ↔ v.extent ≤ layout.dims block) := by
    intro g hg v hv
    exact fits_iff_extent_le hdims ((kind_of_mem_vectors hv).trans (hkind g hg)) (hindex g hg v hv)
  constructor
  · exact fun h => ⟨hdims, fun g hg v hv => (hvector g hg v hv).1 (h g hg v hv)⟩
  · exact fun h g hg v hv => (hvector g hg v hv).2 (h.2 g hg v hv)

/-- Dense vectors that fit the least layout fit exactly the blocks of its length. -/
lemma fits_iff_dims_leastLayout_eq (hkind : ∀ g ∈ graphs, g.kind = .dense)
    (hleast : ∀ g ∈ graphs, ∀ v ∈ g.vectors block, (leastLayout graphs).Fits block v) :
    (∀ g ∈ graphs, ∀ v ∈ g.vectors block, layout.Fits block v) ↔
      ((∃ g ∈ graphs, g.vectors block ≠ []) →
        layout.dims block = (leastLayout graphs).dims block) := by
  have hvector : ∀ g ∈ graphs, ∀ v ∈ g.vectors block,
      (layout.Fits block v ↔ layout.dims block = (leastLayout graphs).dims block) := by
    intro g hg v hv
    have hleast := hleast g hg v hv
    have hvkind : v.kind = .dense := (kind_of_mem_vectors hv).trans (hkind g hg)
    cases v with
    | dense entries =>
      have hown : (entries.length : ℤ) = (leastLayout graphs).dims block := hleast
      rw [Fits, hown, eq_comm]
    | sparse terms => cases hvkind
  constructor
  · rintro h ⟨g, hg, hne⟩
    obtain ⟨v, hv⟩ := List.exists_mem_of_ne_nil _ hne
    exact (hvector g hg v hv).1 (h g hg v hv)
  · intro h g hg v hv
    exact (hvector g hg v hv).2 (h ⟨g, hg, List.ne_nil_of_mem hv⟩)

variable [Scalar K]

/-- The vectors of an accepted dataset in one representation fit its least layout. -/
lemma fits_leastLayout_of_defects_eq_nil {d : Dataset K} {kind : FeatureKind}
    (hdefects : d.defects = .ok []) (hsamples : d.samples = graphs.map some)
    (hkind : ∀ g ∈ graphs, g.kind = kind) :
    ∀ g ∈ graphs, ∀ v ∈ g.vectors block, (leastLayout graphs).Fits block v := by
  obtain ⟨hlength, -, standard, haccepted⟩ := Dataset.accepted_of_defects_eq_nil hdefects
  have hsound : ∀ g ∈ graphs, ∀ v ∈ g.vectors block, v.IsSound (standard.dims block) := by
    intro g hg v hv
    have hsample : some g ∈ d.samples := hsamples ▸ List.mem_map_of_mem hg
    obtain ⟨label, hmem⟩ := Dataset.exists_mem_zip hlength hsample
    obtain ⟨_, y, ⟨⟩, -, hy⟩ := haccepted _ hmem
    exact hy.isSound hv
  exact fun g hg v hv => fits_leastLayout hkind hsound hg hv

/-- The least layout is the least one that fits.  Sparse vectors without negative indices all pass
in a block if and only if it is not shorter, and the dense vectors of an accepted dataset if and
only if it is equally long, unless there are none.  For lists of graphs one after the other, the
larger length of each block counts, whatever their order; without any vectors both blocks are
empty. -/
theorem passes_iff_leastLayout :
    (∀ (graphs : List (LabeledGraph K)) (layout : FeatureLayout),
      (∀ block, 0 ≤ layout.dims block) → (∀ g ∈ graphs, g.kind = .sparse) →
      (∀ g ∈ graphs, ∀ block, ∀ v ∈ g.vectors block, v.hasNegativeIndex = false) →
      ∀ block, (∀ g ∈ graphs, ∀ v ∈ g.vectors block, layout.Passes block v) ↔
        (leastLayout graphs).dims block ≤ layout.dims block) ∧
    (∀ (d : Dataset K) (graphs : List (LabeledGraph K)) (layout : FeatureLayout),
      (∀ block, 0 ≤ layout.dims block) → d.defects = .ok [] → d.samples = graphs.map some →
      (∀ g ∈ graphs, g.kind = .dense) →
      ∀ block, (∀ g ∈ graphs, ∀ v ∈ g.vectors block, layout.Passes block v) ↔
        ((∃ g ∈ graphs, g.vectors block ≠ []) →
          layout.dims block = (leastLayout graphs).dims block)) ∧
    (∀ graphs others : List (LabeledGraph K),
      leastLayout (graphs ++ others) = (leastLayout graphs).join (leastLayout others)) ∧
    (∀ graphs others : List (LabeledGraph K), graphs.Perm others →
      leastLayout graphs = leastLayout others) ∧
    ∀ graphs : List (LabeledGraph K), (∀ g ∈ graphs, ∀ block, g.vectors block = []) →
      leastLayout graphs = .empty := by
  refine ⟨?_, ?_, leastLayout_append, fun _ _ => leastLayout_perm,
    fun _ => leastLayout_of_vectors_eq_nil⟩
  · intro graphs layout hdims hkind hindex block
    simp only [passes_iff_fits hdims]
    exact fits_iff_dims_leastLayout_le (hdims block) hkind fun g hg v hv => hindex g hg block v hv
  · intro d graphs layout hdims hdefects hsamples hkind block
    simp only [passes_iff_fits hdims]
    exact fits_iff_dims_leastLayout_eq hkind
      (fits_leastLayout_of_defects_eq_nil hdefects hsamples hkind)

/-- Two nodes without an edge.  Most indices are not in use. -/
def gapGraph : LabeledGraph Float where
  kind := .sparse
  nodes := [.sparse [(4, 1), (0, -2)], .sparse []]
  edges := ⟨[], by decide, EdgeList.distinct_nil⟩
  edgeVectors := []
  kind_of_mem_nodes := by simp [FeatureVector.kind]
  kind_of_mem_edgeVectors := by simp

/-- One entry more than the largest index is enough for a sparse block, and fewer are not.  The
dense edge vectors have three entries each. -/
theorem passes_iff_leastLayout_gapGraph :
    (∀ g ∈ [gapGraph], ∀ v ∈ g.vectors .node, FeatureLayout.Passes ⟨5, 0⟩ .node v) ∧
      ¬ (∀ g ∈ [gapGraph], ∀ v ∈ g.vectors .node, FeatureLayout.Passes ⟨4, 0⟩ .node v) ∧
      (∀ g ∈ [Dataset.floatGraph, Dataset.voidGraph], ∀ v ∈ g.vectors .edge,
        FeatureLayout.Passes ⟨0, 3⟩ .edge v) ∧
      leastLayout ([gapGraph] ++ [Dataset.floatGraph]) = ⟨5, 3⟩ := by
  obtain ⟨hsparse, hdense, happend, -, -⟩ := passes_iff_leastLayout (K := Float)
  have hindex : ∀ g ∈ [gapGraph], ∀ block, ∀ v ∈ g.vectors block, v.hasNegativeIndex = false := by
    intro g hg block
    obtain rfl := List.mem_singleton.1 hg
    cases block <;> decide
  have hkind : ∀ g ∈ [gapGraph], g.kind = .sparse := by decide
  have hfloats : ∀ g ∈ [Dataset.floatGraph, Dataset.voidGraph], g.kind = .dense := by decide
  have hdefects : Dataset.floatDataset.defects = .ok [] := by decide +kernel
  refine ⟨?_, ?_, ?_, ?_⟩
  · have hdims : ∀ block, 0 ≤ FeatureLayout.dims ⟨5, 0⟩ block :=
      forall_dims_nonneg_iff.2 (by decide)
    exact (hsparse _ _ hdims hkind hindex .node).2 (by decide)
  · have hdims : ∀ block, 0 ≤ FeatureLayout.dims ⟨4, 0⟩ block :=
      forall_dims_nonneg_iff.2 (by decide)
    rw [hsparse _ _ hdims hkind hindex .node]
    decide
  · have hdims : ∀ block, 0 ≤ FeatureLayout.dims ⟨0, 3⟩ block :=
      forall_dims_nonneg_iff.2 (by decide)
    exact (hdense _ _ _ hdims hdefects rfl hfloats .edge).2 fun _ => by decide
  · rw [happend]
    decide

end LabeledGraph

end PottsOracle
