import PottsOracle.Proofs.Feature.LeastLayout
import PottsOracle.Proofs.Synthetic.Valid

/-!
# The layout of generated data

A vector reaches no further than the row it is made of.  So no block of the least layout is longer than
the rows for it, and a block of dense data is exactly as long if there is a vector for it at all
(`Synthetic.dims_leastLayout_eq`).  There is always one for the nodes, but graphs may have no edges.
-/

namespace PottsOracle

variable {K : Type}

namespace FeatureVector

variable [Scalar K]

lemma extent_vectorOf_le (kind : FeatureKind) (entries : List K) :
    (Synthetic.vectorOf kind entries).extent ≤ entries.length := by
  cases kind with
  | dense => exact le_rfl
  | sparse =>
    refine (extent_sparse_le_iff (Int.natCast_nonneg _)).2 ?_
    rintro ⟨i, x⟩ hterm
    obtain ⟨k, rfl, hx, -⟩ := mem_nonzeroTerms_iff.1 hterm
    exact Int.ofNat_lt.2 (List.getElem?_eq_some_iff.1 hx).1

end FeatureVector

/-- The length of the rows for a block. -/
def Generator.dims (g : Generator K) : FeatureBlock → ℕ
  | .node => g.nodeDims
  | .edge => g.edgeDims

namespace Synthetic

variable [Scalar K] {g : Generator K} {draws : Draws K} {starts : List (Draws K)} {s : Sample K}
  {drawn : List (Sample K)} {block : FeatureBlock}

/-- The vectors of a block are made of rows of one length. -/
lemma IsDrawn.exists_row (h : IsDrawn g draws s) {v : FeatureVector K}
    (hv : v ∈ s.graph.vectors block) : ∃ row, row.length = g.dims block ∧ v = vectorOf g.kind row := by
  cases block with
  | node =>
    rw [LabeledGraph.vectors, h.nodes_eq] at hv
    obtain ⟨row, hrow, rfl⟩ := List.mem_map.1 hv
    exact ⟨row, length_of_mem_nodeRows hrow, rfl⟩
  | edge =>
    rw [LabeledGraph.vectors, h.edgeVectors_eq] at hv
    obtain ⟨row, hrow, rfl⟩ := List.mem_map.1 hv
    exact ⟨row, length_of_mem_edgeRows hrow, rfl⟩

/-- No block is longer than the rows for it. -/
lemma dims_leastLayout_le (h : List.Forall₂ (IsDrawn g) starts drawn) (block : FeatureBlock) :
    (LabeledGraph.leastLayout (drawn.map (·.graph))).dims block ≤ g.dims block := by
  refine LabeledGraph.dims_leastLayout_le_iff.2 ⟨Int.natCast_nonneg _, ?_⟩
  rw [List.forall_mem_map]
  refine forall_mem_of_forall₂ h ?_
  intro start _ s hs v hv
  obtain ⟨row, hrow, rfl⟩ := hs.exists_row hv
  exact (FeatureVector.extent_vectorOf_le g.kind row).trans_eq (congrArg Nat.cast hrow)

/-- A block of dense data is as long as the rows for it if there is a vector. -/
lemma dims_leastLayout_eq (h : List.Forall₂ (IsDrawn g) starts drawn) (hkind : g.kind = .dense)
    (block : FeatureBlock) (hs : s ∈ drawn) (hne : s.graph.vectors block ≠ []) :
    (LabeledGraph.leastLayout (drawn.map (·.graph))).dims block = g.dims block := by
  have hextent : ∀ s ∈ drawn, ∀ v ∈ s.graph.vectors block, g.dims block = v.extent :=
    forall_mem_of_forall₂ h fun start _ s hs v hv => by
      obtain ⟨row, hrow, rfl⟩ := hs.exists_row hv
      rw [hkind, ← hrow]
      rfl
  obtain ⟨v, hv⟩ := List.exists_mem_of_ne_nil _ hne
  refine le_antisymm (dims_leastLayout_le h block) ?_
  rw [hextent s hs v hv]
  exact LabeledGraph.extent_le_dims_leastLayout (List.mem_map_of_mem hs) hv

omit [Scalar K] in
/-- A block without vectors is empty. -/
lemma dims_leastLayout_eq_zero (block : FeatureBlock) (hnone : ∀ s ∈ drawn, s.graph.vectors block = []) :
    (LabeledGraph.leastLayout (drawn.map (·.graph))).dims block = 0 := by
  refine le_antisymm (LabeledGraph.dims_leastLayout_le_iff.2 ⟨le_rfl, ?_⟩)
    LabeledGraph.dims_leastLayout_nonneg
  rw [List.forall_mem_map]
  intro s hs v hv
  rw [hnone s hs] at hv
  cases hv

end Synthetic

end PottsOracle
