import PottsOracle.Proofs.Feature.LeastLayout
import PottsOracle.Proofs.Feature.Updates
import PottsOracle.Proofs.Graph.Neighbourhood
import PottsOracle.Proofs.Oracle.Objective

/-!
# The entries of the joint feature vector of a graph

What contributes to a joint feature vector is put into its blocks in one order: first the vectors of
the true nodes, then those of the cut edges. If all of them fit, every entry is the sum of what each
adds to it (`FeatureLayout.exists_contributeAll`). Nodes add nothing to the edge block and edges
nothing to the node block, so that the entries of a block are sums over nodes or over edges
(`LabeledGraph.exists_isJointVector`).
-/

namespace PottsOracle

/-! ## Chosen items -/

section Chosen

variable {ι α β : Type} {chosen : ι → Prop} [DecidablePred chosen] {item : ι → α}

lemma sum_map_chosen (is : List ι) (f : α → Rat) :
    ((is.filterMap fun i => if chosen i then some (item i) else none).map f).sum =
      (is.map fun i => if chosen i then f (item i) else 0).sum := by
  induction is with
  | nil => rfl
  | cons i is ih =>
    by_cases hi : chosen i
    · simp [hi, ih]
    · simp [hi, ih]

lemma flatMap_chosen (is : List ι) (f : α → List β) :
    (is.filterMap fun i => if chosen i then some (item i) else none).flatMap f =
      is.flatMap fun i => if chosen i then f (item i) else [] := by
  induction is with
  | nil => rfl
  | cons i is ih =>
    by_cases hi : chosen i
    · simp [hi, ih]
    · simp [hi, ih]

/-- Two lists side by side, by position. -/
lemma zip_eq_map_finRange {xs : List α} {ys : List β} (h : xs.length = ys.length) :
    xs.zip ys = (List.finRange xs.length).map fun i => (xs.get i, ys.get (i.cast h)) := by
  refine List.ext_getElem ?_ ?_
  · rw [List.length_zip, List.length_map, List.length_finRange, h, min_self]
  · intro k hzip hrange
    simp

end Chosen

namespace FeatureLayout

variable {layout : FeatureLayout} {psi : FeatureVector Rat}

/-- What some contributions add to an entry. -/
def shares (layout : FeatureLayout) (contributions : List (FeatureBlock × FeatureVector Rat))
    (k : ℕ) : Rat :=
  (contributions.map fun c => layout.share c.1 c.2 k).sum

/-- Contributions that fit are all taken, and every entry gets what they add to it. -/
theorem exists_contributeAll (hdims : ∀ block, 0 ≤ layout.dims block)
    {contributions : List (FeatureBlock × FeatureVector Rat)} (hpsi : layout.Holds psi)
    (h : ∀ c ∈ contributions, c.2.kind = psi.kind ∧ layout.Fits c.1 c.2) :
    ∃ phi, layout.contributeAll psi contributions = .ok phi ∧ phi.kind = psi.kind ∧
      layout.Holds phi ∧
      ∀ k, phi.coordinate k = psi.coordinate k + layout.shares contributions k := by
  induction contributions generalizing psi with
  | nil =>
    refine ⟨psi, rfl, rfl, hpsi, ?_⟩
    intro k
    rw [shares, List.map_nil, List.sum_nil, add_zero]
  | cons c contributions ih =>
    obtain ⟨hkind, hfits⟩ := h c List.mem_cons_self
    have hstep : IsStep layout c.1 psi c.2 (layout.contribute c.1 psi c.2) :=
      isStep_contribute hdims hpsi hkind
    have hnone : (layout.contribute c.1 psi c.2).failure = none := by
      rw [hstep.failure_eq, misfit?_eq_none_iff.2 hfits, Option.map_none]
    have hrest : ∀ d ∈ contributions,
        d.2.kind = (layout.contribute c.1 psi c.2).vector.kind ∧ layout.Fits d.1 d.2 := by
      intro d hd
      rw [hstep.kind_eq]
      exact h d (List.mem_cons_of_mem c hd)
    obtain ⟨phi, hphi, hphiKind, hholds, hentry⟩ := ih hstep.holds hrest
    refine ⟨phi, ?_, hphiKind.trans hstep.kind_eq, hholds, ?_⟩
    · rw [contributeAll]
      generalize layout.contribute c.1 psi c.2 = change at hnone hphi
      obtain ⟨vector, failure⟩ := change
      cases hnone
      exact hphi
    · intro k
      rw [hentry, hstep.coordinate_eq, taken_of_fits hfits, shares, shares, List.map_cons,
        List.sum_cons, add_assoc]

lemma coordinate_zeros (kind : FeatureKind) (k : ℕ) :
    (layout.zeros kind : FeatureVector Rat).coordinate k = 0 := by
  cases kind with
  | dense =>
    rw [zeros, FeatureVector.coordinate]
    rcases lt_or_ge k layout.total.toNat with hk | hk
    · rw [List.getD_replicate _ hk]
    · rw [List.getD_eq_default _ _ (by rwa [List.length_replicate])]
  | sparse => rfl

end FeatureLayout

namespace LabeledGraph

open FeatureLayout SeparationOracle

variable {layout : FeatureLayout} {g : LabeledGraph Rat} {y : Labeling}

/-! ## What contributes, by position -/

lemma trueVectors_eq (hy : y.length = g.order) :
    g.trueVectors y = (List.finRange g.nodes.length).filterMap fun i : Fin g.nodes.length =>
      if y.getD i false then some (g.nodes.get i) else none := by
  rw [trueVectors, zip_eq_map_finRange hy.symm, List.filterMap_map]
  refine List.filterMap_congr ?_
  intro i _
  have hlt : (i : ℕ) < y.length := by
    rw [hy]
    exact i.isLt
  rw [Function.comp_apply, List.getD_eq_getElem _ _ hlt]
  rfl

lemma cutVectors_eq (hcount : g.edges.pairs.length = g.edgeVectors.length) (y : Labeling) :
    g.cutVectors y = (List.finRange g.edges.pairs.length).filterMap fun e =>
      if Cut y (g.edges.pairs.get e) then some (g.edgeVectors.get (e.cast hcount)) else none := by
  rw [cutVectors, featuredEdges, zip_eq_map_finRange hcount, List.filterMap_map]
  rfl

/-- What contributes is in the representation of the graph, and fits if all vectors do. -/
lemma fits_of_mem_contributions
    (hfits : ∀ block, ∀ v ∈ g.vectors block, layout.Fits block v)
    {c : FeatureBlock × FeatureVector Rat} (hc : c ∈ g.contributions y) :
    c.2.kind = g.kind ∧ layout.Fits c.1 c.2 := by
  have hmem := mem_vectors_of_mem_contributions hc
  exact ⟨kind_of_mem_vectors hmem, hfits c.1 c.2 hmem⟩

/-! ## The entries of a block -/

lemma shares_contributions (layout : FeatureLayout) (g : LabeledGraph Rat) (y : Labeling) (k : ℕ) :
    layout.shares (g.contributions y) k =
      ((g.trueVectors y).map fun v => layout.share .node v k).sum +
        ((g.cutVectors y).map fun v => layout.share .edge v k).sum := by
  rw [shares, contributions, List.map_append, List.sum_append, List.map_map, List.map_map]
  rfl

/-- To the edge block only edges add something. -/
lemma shares_edge (hcount : g.edges.pairs.length = g.edgeVectors.length) (y : Labeling) {k : ℕ}
    (hk : k < layout.edgeDims) :
    layout.shares (g.contributions y) k =
      -∑ e : Fin g.edges.pairs.length,
        if Cut y (g.edges.pairs.get e) then (g.edgeVectors.get (e.cast hcount)).coordinate k
        else 0 := by
  have hnode : ((g.trueVectors y).map fun v => layout.share .node v k).sum = 0 := by
    refine List.sum_eq_zero ?_
    intro x hx
    obtain ⟨v, -, rfl⟩ := List.mem_map.1 hx
    exact share_node_of_lt hk
  rw [shares_contributions, hnode, zero_add, cutVectors_eq hcount, sum_map_chosen,
    ← Fin.sum_univ_def, ← Finset.sum_neg_distrib]
  refine Finset.sum_congr rfl ?_
  intro e _
  rw [share_edge, apply_ite Neg.neg, neg_zero]

/-- To the node block only nodes add something: a vector of an edge ends where its block does. -/
lemma shares_node (hfits : ∀ v ∈ g.edgeVectors, layout.Fits .edge v) (hy : y.length = g.order)
    (k : ℕ) :
    layout.shares (g.contributions y) (layout.edgeDims.toNat + k) =
      ∑ i : Fin g.nodes.length, if y.getD i false then (g.nodes.get i).coordinate k else 0 := by
  have hedge : ((g.cutVectors y).map fun v =>
      layout.share .edge v (layout.edgeDims.toNat + k)).sum = 0 := by
    refine List.sum_eq_zero ?_
    intro x hx
    obtain ⟨v, hv, rfl⟩ := List.mem_map.1 hx
    have hbeyond : layout.dims .edge ≤ ((layout.edgeDims.toNat + k : ℕ) : ℤ) := by
      rw [dims]
      omega
    rw [share_edge, ← taken_of_fits (hfits v (mem_edgeVectors_of_mem_cutVectors hv)),
      coordinate_taken_eq_zero hbeyond, neg_zero]
  rw [shares_contributions, hedge, add_zero, trueVectors_eq hy, sum_map_chosen, ← Fin.sum_univ_def]
  refine Finset.sum_congr rfl ?_
  intro i _
  rw [share_node_add]

/-! ## The terms of a sparse graph -/

/-- The contributed terms: those of the true nodes, moved to the node block, and then those of the
cut edges with their values negated. -/
lemma allPlaced_contributions (hcount : g.edges.pairs.length = g.edgeVectors.length)
    (hy : y.length = g.order) :
    layout.allPlaced (g.contributions y) =
      ((List.finRange g.nodes.length).flatMap fun i : Fin g.nodes.length =>
        if y.getD i false then
          (g.nodes.get i).terms.map fun term => (term.1 + layout.edgeDims, term.2)
        else []) ++
      (List.finRange g.edges.pairs.length).flatMap fun e =>
        if Cut y (g.edges.pairs.get e) then
          (g.edgeVectors.get (e.cast hcount)).terms.map fun term => (term.1, -term.2)
        else [] := by
  have hedge : ∀ v : FeatureVector Rat, layout.placed .edge v.terms =
      v.terms.map fun term => (term.1, -term.2) := by
    intro v
    refine List.map_congr_left ?_
    intro term _
    rw [offset, add_zero]
    rfl
  rw [allPlaced, contributions, List.flatMap_append, List.flatMap_map, List.flatMap_map,
    trueVectors_eq hy, flatMap_chosen, cutVectors_eq hcount, flatMap_chosen]
  simp only [hedge]
  rfl

/-! ## The joint feature vector -/

/-- A joint feature vector is the one of a graph under a labeling. An entry of the edge block is
minus the sum over the edges between nodes with different labels, an entry of the node block the sum
over the true nodes; and a sparse one lists the terms of these vectors, one after the other. -/
structure IsJointVector (layout : FeatureLayout) (g : LabeledGraph Rat) (y : Labeling)
    (hcount : g.edges.pairs.length = g.edgeVectors.length) (psi : FeatureVector Rat) : Prop where
  wellFormed : layout.WellFormed g.kind psi
  edge_entry : ∀ k : ℕ, k < layout.edgeDims → (layout.row psi)[k]? =
    some (-∑ e : Fin g.edges.pairs.length,
      if Cut y (g.edges.pairs.get e) then (g.edgeVectors.get (e.cast hcount)).coordinate k else 0)
  node_entry : ∀ k : ℕ, k < layout.nodeDims → (layout.row psi)[layout.edgeDims.toNat + k]? =
    some (∑ i : Fin g.nodes.length, if y.getD i false then (g.nodes.get i).coordinate k else 0)
  eq_sparse : g.kind = .sparse → psi = .sparse
    (((List.finRange g.nodes.length).flatMap fun i : Fin g.nodes.length =>
        if y.getD i false then
          (g.nodes.get i).terms.map fun term => (term.1 + layout.edgeDims, term.2)
        else []) ++
      (List.finRange g.edges.pairs.length).flatMap fun e =>
        if Cut y (g.edges.pairs.get e) then
          (g.edgeVectors.get (e.cast hcount)).terms.map fun term => (term.1, -term.2)
        else [])

/-- The two ends of an edge occur once among the edges, in either order. -/
lemma eq_of_sameEnds {e f : Fin g.edges.pairs.length}
    (h : SameEnds (g.edges.pairs.get e) (g.edges.pairs.get f)) : e = f := by
  have hsymm : SameEnds (g.edges.pairs.get f) (g.edges.pairs.get e) := by
    rw [sameEnds_iff] at h ⊢
    exact h.symm
  rcases lt_trichotomy e f with hlt | heq | hgt
  · exact absurd h (List.pairwise_iff_get.1 g.edges.distinct e f hlt)
  · exact heq
  · exact absurd hsymm (List.pairwise_iff_get.1 g.edges.distinct f e hgt)

/-- The joint feature vector of a graph whose vectors all fit, under a labeling of its nodes: it can
be built, in either representation, and its entries are the sums that they are meant to be. No two
edges join the same nodes, so each of them contributes at most once, and an edge from a node to
itself never does. -/
theorem exists_isJointVector (layout : FeatureLayout) (hdims : ∀ block, 0 ≤ layout.dims block)
    (g : LabeledGraph Rat) (hcount : g.edges.pairs.length = g.edgeVectors.length)
    (hfits : ∀ block, ∀ v ∈ g.vectors block, layout.Fits block v)
    (y : Labeling) (hy : y.length = g.order) :
    (∃ psi, g.jointVector g.kind layout y = .ok psi ∧ IsJointVector layout g y hcount psi) ∧
      (∀ e f : Fin g.edges.pairs.length,
        SameEnds (g.edges.pairs.get e) (g.edges.pairs.get f) → e = f) ∧
      ∀ i, ¬ Cut y (i, i) := by
  refine ⟨?_, fun e f => eq_of_sameEnds, fun i hcut => hcut rfl⟩
  have htotal := total_nonneg hdims
  have hall : ∀ c ∈ g.contributions y,
      c.2.kind = (layout.zeros g.kind : FeatureVector Rat).kind ∧ layout.Fits c.1 c.2 := by
    intro c hc
    rw [kind_zeros]
    exact fits_of_mem_contributions hfits hc
  obtain ⟨psi, hpsi, hkind, hholds, hentry⟩ :=
    exists_contributeAll hdims (holds_zeros htotal g.kind) hall
  refine ⟨psi, ?_, ?_, ?_, ?_, ?_⟩
  · rw [jointVector, if_pos hy, hpsi]
  · have h := wellFormed_of_holds htotal hholds
    rwa [hkind, kind_zeros] at h
  · intro k hk
    have hlt : (k : ℤ) < layout.total := by
      have hnode : 0 ≤ layout.nodeDims := hdims .node
      rw [total]
      omega
    rw [getElem?_row hlt, hentry, coordinate_zeros, zero_add, shares_edge hcount y hk]
  · intro k hk
    have hlt : ((layout.edgeDims.toNat + k : ℕ) : ℤ) < layout.total := by
      have hedge : 0 ≤ layout.edgeDims := hdims .edge
      rw [total]
      omega
    rw [getElem?_row hlt, hentry, coordinate_zeros, zero_add, shares_node (hfits .edge) hy]
  · intro hsparse
    rw [hsparse] at hall hpsi
    rw [zeros, contributeAll_sparse_eq hall, List.nil_append,
      allPlaced_contributions hcount hy] at hpsi
    exact (Except.ok.inj hpsi).symm

/-- An index that is repeated in a vector adds up, and the edge from a node to itself is left out.
-/
theorem exists_isJointVector_loopGraph :
    ∃ psi, loopGraph.jointVector .sparse ⟨1, 2⟩ [true, false] = .ok psi ∧
      psi = .sparse [(2, 1), (2, 2), (1, -1 / 2), (1, -1 / 2)] ∧
      FeatureLayout.toDense ⟨1, 2⟩ psi = .ok [0, -1, 3] := by
  have hdims : ∀ block, 0 ≤ FeatureLayout.dims ⟨1, 2⟩ block := by
    intro block
    cases block <;> decide
  have hfits : ∀ block, ∀ v ∈ loopGraph.vectors block, FeatureLayout.Fits ⟨1, 2⟩ block v := by
    intro block
    cases block <;> decide
  obtain ⟨⟨psi, hpsi, hsums⟩, -, -⟩ :=
    exists_isJointVector ⟨1, 2⟩ hdims loopGraph rfl hfits [true, false] rfl
  have hterms : psi = .sparse [(2, 1), (2, 2), (1, -1 / 2), (1, -1 / 2)] := by
    rw [hsums.eq_sparse rfl]
    decide +kernel
  refine ⟨psi, hpsi, hterms, ?_⟩
  rw [hsums.wellFormed.toDense_eq (.inr (by decide)), hterms]
  decide +kernel

end LabeledGraph

end PottsOracle
