import PottsOracle.Proofs.Feature.JointEntries
import PottsOracle.Proofs.Oracle.Objective

/-!
# The joint feature vector of a graph

If the vectors of a graph have scores, its joint feature vectors can be built, and what they are
does not depend on the weights that gave the scores.  A sparse one consists of the terms of all
contributions; every one has the layout if no block has a negative length
(`SeparationOracle.Scored.holds`).
-/

namespace PottsOracle

namespace SeparationOracle

variable {layout : FeatureLayout} {g : LabeledGraph Rat} {weights : List Rat} {y : Labeling}
  {psi : FeatureVector Rat}

/-! ## The vectors that contribute -/

lemma map_trueVectors {α : Type} (value : FeatureVector Rat → α) (y : Labeling) :
    (g.trueVectors y).map value =
      ((g.nodes.map value).zip y).filterMap fun p => if p.2 then some p.1 else none := by
  rw [LabeledGraph.trueVectors, List.map_filterMap, List.zip_map_left, List.filterMap_map]
  refine List.filterMap_congr fun p _ => ?_
  cases h : p.2 <;> simp [h]

lemma map_cutVectors {α : Type} (value : FeatureVector Rat → α) (y : Labeling) :
    (g.cutVectors y).map value =
      (g.edges.pairs.zip (g.edgeVectors.map value)).filterMap fun f =>
        if LabeledGraph.Cut y f.1 then some f.2 else none := by
  rw [LabeledGraph.cutVectors, LabeledGraph.featuredEdges, List.map_filterMap, List.zip_map_right,
    List.filterMap_map]
  refine List.filterMap_congr fun f _ => ?_
  by_cases h : LabeledGraph.Cut y f.1 <;> simp [h]

/-! ## What is contributed -/

/-- Only a label for every node makes a joint feature vector. -/
lemma length_of_jointVector {kind : FeatureKind} (h : g.jointVector kind layout y = .ok psi) :
    y.length = g.order := by
  rw [LabeledGraph.jointVector] at h
  split at h
  · assumption
  · cases h

namespace Scored

/-- The joint feature vector of a sparse graph. -/
lemma jointVector_sparse_eq (h : Scored layout g weights) (hkind : g.kind = .sparse)
    (hy : y.length = g.order) :
    g.jointVector g.kind layout y = .ok (.sparse (layout.allPlaced (g.contributions y))) := by
  have hall : ∀ c ∈ g.contributions y, c.2.kind = .sparse ∧ layout.Fits c.1 c.2 := by
    intro c hc
    obtain ⟨hc, hscore⟩ := h.contribution hc
    exact ⟨hc.trans hkind, FeatureLayout.fits_of_blockScore hscore⟩
  rw [LabeledGraph.jointVector, if_pos hy, hkind, FeatureLayout.zeros,
    FeatureLayout.contributeAll_sparse_eq hall, List.nil_append]

/-- A joint feature vector has the representation of its graph, and a score. -/
lemma score_jointVector (h : Scored layout g weights) (hpsi : g.jointVector g.kind layout y = .ok psi) :
    psi.kind = g.kind ∧ layout.score psi weights = .ok (jointValue layout g weights y) := by
  obtain ⟨own, hown, hkind, hscore⟩ := exists_jointVector h (length_of_jointVector hpsi)
  obtain rfl := Except.ok.inj (hpsi.symm.trans hown)
  exact ⟨hkind, hscore⟩

/-- Whether dense vectors have scores depends on the number of weights only. -/
lemma of_length_eq (h : Scored layout g weights) (hkind : g.kind = .dense) {ws : List Rat}
    (hws : ws.length = weights.length) : Scored layout g ws := by
  have hblock : ∀ (block : FeatureBlock) (v : FeatureVector Rat), v.kind = .dense →
      layout.blockScore block weights v = .ok (layout.blockValue block weights v) →
      layout.blockScore block ws v = .ok (layout.blockValue block ws v) := by
    intro block v hv hscore
    rw [FeatureVector.eq_dense_entries hv] at hscore ⊢
    obtain ⟨hdims, hlength, -⟩ := FeatureLayout.blockScore_dense_eq_ok_iff.1 hscore
    have hweights : (layout.blockWeights block ws).length =
        (layout.blockWeights block weights).length := by
      cases block <;> simp [FeatureLayout.blockWeights, hws]
    have hown := FeatureLayout.blockScore_dense_eq_ok_iff.2 ⟨hdims, hweights.trans hlength, rfl⟩
    rw [FeatureLayout.blockValue_eq _ _ hown, hown]
  exact ⟨(congrArg Nat.cast hws).trans h.length_eq,
    fun v hv => hblock .node v ((g.kind_of_mem_nodes v hv).trans hkind) (h.node v hv),
    fun v hv => hblock .edge v ((g.kind_of_mem_edgeVectors v hv).trans hkind) (h.edge v hv)⟩

/-- A joint feature vector has the layout. -/
theorem holds (h : Scored layout g weights) (hdims : ∀ block, 0 ≤ layout.dims block)
    (hpsi : g.jointVector g.kind layout y = .ok psi) : layout.Holds psi := by
  obtain ⟨hkind, hscore⟩ := h.score_jointVector hpsi
  cases psi with
  | dense entries =>
    obtain ⟨htotal, hlength, -⟩ := FeatureLayout.score_dense_eq_ok_iff.1 hscore
    rw [FeatureLayout.Holds, hlength, htotal]
  | sparse terms =>
    rw [h.jointVector_sparse_eq hkind.symm (length_of_jointVector hpsi)] at hpsi
    obtain rfl := FeatureVector.sparse.inj (Except.ok.inj hpsi)
    exact FeatureLayout.holds_allPlaced hdims fun c hc =>
      FeatureLayout.fits_of_blockScore (h.contribution hc).2

end Scored

end SeparationOracle

end PottsOracle
