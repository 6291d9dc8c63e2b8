import PottsOracle.Proofs.Feature.JointScore
import PottsOracle.Proofs.Feature.LeastLayout
import PottsOracle.Proofs.Potts.Score
import PottsOracle.Oracle.Separation

/-!
# What the oracle maximises

The Potts model of a graph has, up to a constant, the score of the joint feature vector as its
objective, and with true labels that score and the loss (`SeparationOracle.exactScore_pottsModel`).
Edges enter the two with different signs: the joint feature vector pays for the edges that are cut,
the Potts model gains from those that are not.
-/

namespace PottsOracle

/-! ## The loss -/

namespace Labeling

/-- The number of wrong labels. -/
def mistakes (truth y : Labeling) : Nat := (truth.zip y).countP fun labels => labels.1 != labels.2

/-- Labelings of as many nodes differ in the mistakes. -/
lemma hamming_eq {truth y : Labeling} (h : truth.length = y.length) :
    hamming truth y = .ok (mistakes truth y) := by
  unfold hamming mistakes
  -- where a single label is compared with all labels of the other side, there is only one
  split
  · rename_i a
    cases y with
    | nil => cases h
    | cons b y =>
      have hnil : y = [] := List.length_eq_zero_iff.1 (by simpa using h.symm)
      subst hnil
      cases a <;> cases b <;> rfl
  · rename_i b _
    cases truth with
    | nil => cases h
    | cons a truth =>
      have hnil : truth = [] := List.length_eq_zero_iff.1 (by simpa using h)
      subst hnil
      cases a <;> cases b <;> rfl
  · rw [if_pos h]

/-- The loss of a labeling of as many nodes counts its mistakes. -/
lemma loss_eq {truth y : Labeling} (h : truth.length = y.length) :
    (loss truth y : Except InputError Rat) = .ok (mistakes truth y : Rat) := by
  rw [loss, hamming_eq h]
  rfl

/-- What true labels add to the score of a labeling: its mistakes, less what is counted for every
labeling. -/
def lossOffset (truth : Option Labeling) (y : Labeling) : Rat :=
  truth.elim 0 fun t => mistakes t y - t.count true

end Labeling

/-! ## Scores of vectors -/

namespace FeatureLayout

/-- The score of a vector in a block, or nothing if it has none. -/
def blockValue (layout : FeatureLayout) (block : FeatureBlock) (weights : List Rat)
    (v : FeatureVector Rat) : Rat :=
  (layout.blockScore block weights v).toOption.getD 0

lemma blockValue_eq {layout : FeatureLayout} {block : FeatureBlock} {weights : List Rat}
    (v : FeatureVector Rat) (s : Rat) (h : layout.blockScore block weights v = .ok s) :
    layout.blockValue block weights v = s := by
  rw [blockValue, h]
  rfl

end FeatureLayout

namespace LabeledGraph

variable {K : Type} {g : LabeledGraph K} {y : Labeling} {v : FeatureVector K}

/-- The vectors that contribute to the node block, by position. -/
lemma mem_trueVectors_iff :
    v ∈ g.trueVectors y ↔ ∃ i : ℕ, g.nodes[i]? = some v ∧ y[i]? = some true := by
  rw [trueVectors, List.mem_filterMap]
  constructor
  · rintro ⟨⟨u, label⟩, hmem, hsome⟩
    obtain ⟨i, hi⟩ := List.mem_iff_getElem?.1 hmem
    obtain ⟨hu, hlabel⟩ := List.getElem?_zip_eq_some.1 hi
    cases label with
    | false => cases hsome
    | true =>
      cases hsome
      exact ⟨i, hu, hlabel⟩
  · rintro ⟨i, hv, hlabel⟩
    exact ⟨(v, true), List.mem_of_getElem? (List.getElem?_zip_eq_some.2 ⟨hv, hlabel⟩), rfl⟩

/-- The vectors that contribute to the edge block, by position. -/
lemma mem_cutVectors_iff :
    v ∈ g.cutVectors y ↔
      ∃ (k : ℕ) (e : ℕ × ℕ), g.edges.pairs[k]? = some e ∧ g.edgeVectors[k]? = some v ∧ Cut y e := by
  rw [cutVectors, featuredEdges, List.mem_filterMap]
  constructor
  · rintro ⟨⟨e, u⟩, hmem, hsome⟩
    obtain ⟨k, hk⟩ := List.mem_iff_getElem?.1 hmem
    obtain ⟨he, hu⟩ := List.getElem?_zip_eq_some.1 hk
    obtain ⟨hcut, ⟨⟩⟩ := Option.ite_none_right_eq_some.1 hsome
    exact ⟨k, e, he, hu, hcut⟩
  · rintro ⟨k, e, he, hv, hcut⟩
    exact ⟨(e, v), List.mem_of_getElem? (List.getElem?_zip_eq_some.2 ⟨he, hv⟩), if_pos hcut⟩

lemma mem_edgeVectors_of_mem_cutVectors (h : v ∈ g.cutVectors y) : v ∈ g.edgeVectors := by
  obtain ⟨k, e, -, hv, -⟩ := mem_cutVectors_iff.1 h
  exact List.mem_of_getElem? hv

/-- What contributes to a block is a vector of the graph for that block. -/
lemma mem_vectors_of_mem_contributions {c : FeatureBlock × FeatureVector K}
    (h : c ∈ g.contributions y) : c.2 ∈ g.vectors c.1 := by
  rcases List.mem_append.1 h with h | h
  · obtain ⟨v, hv, rfl⟩ := List.mem_map.1 h
    obtain ⟨i, hnode, -⟩ := mem_trueVectors_iff.1 hv
    exact List.mem_of_getElem? hnode
  · obtain ⟨v, hv, rfl⟩ := List.mem_map.1 h
    exact mem_edgeVectors_of_mem_cutVectors hv

end LabeledGraph

namespace SeparationOracle

/-- The weights fit the layout, and all vectors of the graph have a score under them. -/
structure Scored (layout : FeatureLayout) (g : LabeledGraph Rat) (weights : List Rat) : Prop where
  length_eq : weights.length = layout.total
  node : ∀ v ∈ g.nodes,
    layout.blockScore .node weights v = .ok (layout.blockValue .node weights v)
  edge : ∀ v ∈ g.edgeVectors,
    layout.blockScore .edge weights v = .ok (layout.blockValue .edge weights v)

/-- The scores of all nodes. -/
def nodeValues (layout : FeatureLayout) (g : LabeledGraph Rat) (weights : List Rat) : List Rat :=
  g.nodes.map (layout.blockValue .node weights)

/-- The scores of all edges. -/
def edgeValues (layout : FeatureLayout) (g : LabeledGraph Rat) (weights : List Rat) : List Rat :=
  g.edgeVectors.map (layout.blockValue .edge weights)

/-- The score of the joint feature vector, as a sum of scores. -/
def jointValue (layout : FeatureLayout) (g : LabeledGraph Rat) (weights : List Rat)
    (y : Labeling) : Rat :=
  ((g.trueVectors y).map (layout.blockValue .node weights)).sum
    - ((g.cutVectors y).map (layout.blockValue .edge weights)).sum

variable {layout : FeatureLayout} {g : LabeledGraph Rat} {weights : List Rat}

lemma scores_eq_ok_iff {block : FeatureBlock} {vectors : List (FeatureVector Rat)}
    {xs : List Rat} :
    scores layout block weights vectors = .ok xs ↔
      (∀ v ∈ vectors,
        layout.blockScore block weights v = .ok (layout.blockValue block weights v)) ∧
        xs = vectors.map (layout.blockValue block weights) := by
  rw [scores, mapError_eq_ok_iff, mapM_eq_ok_iff_eq_map FeatureLayout.blockValue_eq]

/-- What contributes to a joint feature vector has a score. -/
lemma Scored.contribution (h : Scored layout g weights) {y : Labeling}
    {c : FeatureBlock × FeatureVector Rat} (hc : c ∈ g.contributions y) :
    c.2.kind = g.kind ∧
      layout.blockScore c.1 weights c.2 = .ok (layout.blockValue c.1 weights c.2) := by
  obtain ⟨block, v⟩ := c
  have hmem : v ∈ g.vectors block := LabeledGraph.mem_vectors_of_mem_contributions hc
  refine ⟨LabeledGraph.kind_of_mem_vectors hmem, ?_⟩
  cases block with
  | node => exact h.node v hmem
  | edge => exact h.edge v hmem

/-- Every labeling of the nodes has a joint feature vector. -/
lemma exists_jointVector (h : Scored layout g weights) {y : Labeling} (hy : y.length = g.order) :
    ∃ psi, g.jointVector g.kind layout y = .ok psi ∧ psi.kind = g.kind ∧
      layout.score psi weights = .ok (jointValue layout g weights y) := by
  have hall : ∀ c ∈ g.contributions y, c.2.kind = (layout.zeros g.kind : FeatureVector Rat).kind ∧
      layout.blockScore c.1 weights c.2 = .ok (layout.blockValue c.1 weights c.2) := by
    intro c hc
    rw [FeatureLayout.kind_zeros]
    exact h.contribution hc
  obtain ⟨psi, hpsi, hkind, hscore⟩ :=
    FeatureLayout.contributeAll_score (FeatureLayout.score_zeros g.kind h.length_eq) hall
  refine ⟨psi, ?_, hkind.trans (FeatureLayout.kind_zeros g.kind), ?_⟩
  · rw [LabeledGraph.jointVector, if_pos hy]
    exact hpsi
  · rw [hscore, jointValue, LabeledGraph.contributions, List.map_append, List.sum_append,
      List.map_map, List.map_map, zero_add, sub_eq_add_neg, List.sum_neg, List.map_map]
    rfl

/-! ## The Potts model -/

/-- A Potts model is made of the scores of all nodes and all edges. -/
lemma pottsModel_eq_ok_iff {K : Type} [Scalar K] {g : LabeledGraph K} {weights : List K}
    {truth : Option Labeling} {m : PottsModel K} :
    pottsModel layout g weights truth = .ok m ↔
      ∃ nodes edges, nodeScores layout g weights = .ok nodes ∧
        (∀ t ∈ truth, t.length = g.order) ∧
        scores layout .edge weights g.edgeVectors = .ok edges ∧
        PottsModel.ofLists (truth.elim nodes (augmented nodes))
          (g.edges.pairs.map fun e => ((e.1 : ℤ), (e.2 : ℤ))) edges = .ok m := by
  rw [pottsModel, bind_eq_ok_iff]
  refine exists_congr fun nodes => ?_
  rw [exists_and_left]
  refine and_congr_right fun _ => ?_
  cases truth with
  | none =>
    simp [bind_eq_ok_iff, mapError_eq_ok_iff]
  | some t =>
    by_cases hlength : t.length = g.order
    · simp [hlength, bind_eq_ok_iff, mapError_eq_ok_iff]
    · simp [hlength, bind_eq_ok_iff]

lemma nodeScores_eq_ok_iff {xs : List Rat} :
    nodeScores layout g weights = .ok xs ↔
      weights.length = layout.total ∧
        (∀ v ∈ g.nodes,
          layout.blockScore .node weights v = .ok (layout.blockValue .node weights v)) ∧
        xs = nodeValues layout g weights := by
  rw [nodeScores, bind_eq_ok_iff, FeatureLayout.checkWeights]
  simp only [scores_eq_ok_iff, mapError_eq_ok_iff]
  by_cases htotal : (weights.length : ℤ) = layout.total
  · simp [htotal, nodeValues]
  · simp [htotal]

/-- A Potts model is only made of vectors that have a score. -/
lemma scored_of_pottsModel {truth : Option Labeling} {m : PottsModel Rat}
    (h : pottsModel layout g weights truth = .ok m) :
    Scored layout g weights ∧ ∀ t ∈ truth, t.length = g.order := by
  obtain ⟨nodes, edges, hnodes, htruth, hedges, -⟩ := pottsModel_eq_ok_iff.1 h
  obtain ⟨htotal, hnode, -⟩ := nodeScores_eq_ok_iff.1 hnodes
  exact ⟨⟨htotal, hnode, (scores_eq_ok_iff.1 hedges).1⟩, htruth⟩

/-- The Potts model of a graph whose vectors all have a score. -/
lemma pottsModel_eq (h : Scored layout g weights) {truth : Option Labeling}
    (htruth : ∀ t ∈ truth, t.length = g.order) :
    pottsModel layout g weights truth =
      (PottsModel.ofLists
        (truth.elim (nodeValues layout g weights) (augmented (nodeValues layout g weights)))
        (g.edges.pairs.map fun e => ((e.1 : ℤ), (e.2 : ℤ)))
        (edgeValues layout g weights)).mapError .potts := by
  have hnodes : nodeScores layout g weights = .ok (nodeValues layout g weights) :=
    nodeScores_eq_ok_iff.2 ⟨h.length_eq, h.node, rfl⟩
  have hedges : scores layout .edge weights g.edgeVectors = .ok (edgeValues layout g weights) :=
    scores_eq_ok_iff.2 ⟨h.edge, rfl⟩
  rw [pottsModel, hnodes, hedges]
  cases truth with
  | none => rfl
  | some t =>
    have hlength : t.length = g.order := htruth t rfl
    simp only [bind, Except.bind, hlength, if_true]
    rfl

lemma ofLists_eq_ok {K : Type} [Scalar K] {potentials entries : List K} {pairs : List (ℤ × ℤ)}
    {m : PottsModel K} (h : PottsModel.ofLists potentials pairs entries = .ok m) :
    pairs.length = entries.length ∧ m.potentials = potentials ∧
      m.couplings = PottsModel.couplingsOf pairs entries := by
  rw [PottsModel.ofLists] at h
  split at h
  · cases h
  · rename_i hlength
    split at h
    · cases h
    · cases h
      exact ⟨not_not.1 hlength, rfl, rfl⟩

lemma weight_mem_of_mem_couplingsOf {entries : List Rat} {pairs : List (ℤ × ℤ)} {c : Coupling Rat}
    (h : c ∈ PottsModel.couplingsOf pairs entries) : c.weight ∈ entries := by
  obtain ⟨i, hi, rfl⟩ := List.mem_iff_getElem.1 h
  have hlt : i < entries.length := by
    rw [PottsModel.couplingsOf, List.length_zipWith] at hi
    exact hi.trans_le (min_le_right _ _)
  have hget : (PottsModel.couplingsOf pairs entries)[i].weight = entries[i] := by
    simp only [PottsModel.couplingsOf, List.getElem_zipWith]
  rw [hget]
  exact List.getElem_mem hlt

/-- Equally many pairs and weights make a model if no weight is negative. -/
lemma exists_ofLists (potentials : List Rat) {entries : List Rat} {pairs : List (ℤ × ℤ)}
    (hlength : pairs.length = entries.length) (hnonneg : ∀ x ∈ entries, 0 ≤ x) :
    ∃ m, PottsModel.ofLists potentials pairs entries = .ok m := by
  have hnot : ¬ HasNegative ((PottsModel.couplingsOf pairs entries).map (·.weight)) := by
    rw [HasNegative, Scalar.minimum?_any_lt_zero_iff]
    rintro ⟨x, hx, hneg⟩
    obtain ⟨c, hc, rfl⟩ := List.mem_map.1 hx
    exact absurd hneg (not_lt.2 (hnonneg _ (weight_mem_of_mem_couplingsOf hc)))
  refine ⟨⟨potentials, PottsModel.couplingsOf pairs entries, hnot⟩, ?_⟩
  rw [PottsModel.ofLists, if_neg (not_not.2 hlength), dif_neg hnot]

/-- The parts of the Potts model of a graph. -/
structure IsModel (layout : FeatureLayout) (g : LabeledGraph Rat) (weights : List Rat)
    (truth : Option Labeling) (m : PottsModel Rat) : Prop where
  scored : Scored layout g weights
  truth_length : ∀ t ∈ truth, t.length = g.order
  count_eq : g.edges.pairs.length = g.edgeVectors.length
  potentials_eq : m.potentials =
    truth.elim (nodeValues layout g weights) (augmented (nodeValues layout g weights))
  couplings_eq : m.couplings = PottsModel.couplingsOf
    (g.edges.pairs.map fun e => ((e.1 : ℤ), (e.2 : ℤ))) (edgeValues layout g weights)

lemma isModel_of_pottsModel {truth : Option Labeling} {m : PottsModel Rat}
    (h : pottsModel layout g weights truth = .ok m) : IsModel layout g weights truth m := by
  obtain ⟨hscored, htruth⟩ := scored_of_pottsModel h
  rw [pottsModel_eq hscored htruth, mapError_eq_ok_iff] at h
  obtain ⟨hlength, hpotentials, hcouplings⟩ := ofLists_eq_ok h
  rw [List.length_map, edgeValues, List.length_map] at hlength
  exact ⟨hscored, htruth, hlength, hpotentials, hcouplings⟩

namespace IsModel

variable {truth : Option Labeling} {m : PottsModel Rat}

lemma order_eq (h : IsModel layout g weights truth m) : m.order = g.order := by
  rw [PottsModel.order, h.potentials_eq]
  cases truth with
  | none => exact List.length_map _
  | some t =>
    have hlength : t.length = g.nodes.length := h.truth_length t rfl
    rw [Option.elim_some, augmented, List.length_zipWith, nodeValues, List.length_map, hlength,
      min_self]
    rfl

lemma couplings_eq_map (h : IsModel layout g weights truth m) :
    m.couplings = g.featuredEdges.map fun f =>
      ⟨f.1.1, f.1.2, layout.blockValue .edge weights f.2⟩ := by
  rw [h.couplings_eq, PottsModel.couplingsOf, edgeValues, List.zipWith_map, LabeledGraph.featuredEdges,
    List.zip, List.map_zipWith]

/-- All couplings of the model of a graph join nodes. -/
lemma joinsNodes (h : IsModel layout g weights truth m) : m.JoinsNodes := by
  intro c hc
  rw [h.couplings_eq_map] at hc
  obtain ⟨⟨e, v⟩, hmem, rfl⟩ := List.mem_map.1 hc
  have hrange := g.edges.lt_of_mem e (List.of_mem_zip hmem).1
  have horder : m.order = g.nodes.length := h.order_eq
  dsimp only
  omega

/-- The edges of a graph that has a model have no negative scores. -/
lemma edge_nonneg (h : IsModel layout g weights truth m) {v : FeatureVector Rat}
    (hv : v ∈ g.edgeVectors) : 0 ≤ layout.blockValue .edge weights v := by
  have hvectors : g.featuredEdges.map Prod.snd = g.edgeVectors := List.map_snd_zip h.count_eq.ge
  rw [← hvectors] at hv
  obtain ⟨f, hf, rfl⟩ := List.mem_map.1 hv
  have hmem : (⟨f.1.1, f.1.2, layout.blockValue .edge weights f.2⟩ : Coupling Rat) ∈ m.couplings := by
    rw [h.couplings_eq_map]
    exact List.mem_map_of_mem hf
  exact m.weight_nonneg hmem

end IsModel

/-! ## Objective and score -/

/-- The potentials of the true nodes are the scores of the true vectors. -/
lemma sum_zipWith_map {vectors : List (FeatureVector Rat)} (value : FeatureVector Rat → Rat)
    (y : Labeling) :
    (List.zipWith (fun mark x => if mark then x else 0) y (vectors.map value)).sum =
      (((vectors.zip y).filterMap fun p => if p.2 then some p.1 else none).map value).sum := by
  induction vectors generalizing y with
  | nil => simp
  | cons v vectors ih =>
    cases y with
    | nil => simp
    | cons label y =>
      cases label with
      | false => simpa using ih y
      | true => simpa using ih y

/-- The loss in the potentials counts mistakes, less the true labels. -/
lemma sum_zipWith_augmented {potentials : List Rat} {t y : Labeling}
    (hpotentials : potentials.length = y.length) (ht : t.length = y.length) :
    (List.zipWith (fun mark x => if mark then x else 0) y (augmented potentials t)).sum =
      (List.zipWith (fun mark x => if mark then x else 0) y potentials).sum
        + (Labeling.mistakes t y - t.count true) := by
  induction y generalizing potentials t with
  | nil =>
    rw [List.length_eq_zero_iff.1 ht]
    simp [Labeling.mistakes]
  | cons label y ih =>
    cases potentials with
    | nil => cases hpotentials
    | cons u potentials =>
      cases t with
      | nil => cases ht
      | cons b t =>
        have hrest := ih (by simpa using hpotentials) (by simpa using ht)
        simp only [augmented, Labeling.mistakes] at hrest ⊢
        cases label <;> cases b <;> simp [hrest] <;> ring

/-- What is not cut and what is cut are all edges. -/
lemma sum_agree_add_sum_cut (value : FeatureVector Rat → Rat) (y : Labeling)
    (featured : List ((Nat × Nat) × FeatureVector Rat)) :
    (featured.map fun f =>
        if PottsModel.Agree y ⟨(f.1.1 : ℤ), (f.1.2 : ℤ), value f.2⟩ then value f.2 else 0).sum
      + ((featured.filterMap fun f =>
          if LabeledGraph.Cut y f.1 then some f.2 else none).map value).sum =
      (featured.map fun f => value f.2).sum := by
  induction featured with
  | nil => simp
  | cons f featured ih =>
    have hiff : PottsModel.Agree y ⟨(f.1.1 : ℤ), (f.1.2 : ℤ), value f.2⟩ ↔
        ¬ LabeledGraph.Cut y f.1 := by
      rw [LabeledGraph.Cut, not_not]
      rfl
    by_cases hcut : LabeledGraph.Cut y f.1
    · simp only [List.map_cons, List.sum_cons, List.filterMap_cons, hiff, hcut, if_true,
        not_true, if_false, ← ih]
      ring
    · simp only [List.map_cons, List.sum_cons, List.filterMap_cons, hiff, hcut, if_false,
        not_false_eq_true, if_true, ← ih]
      ring

/-- The objective of the Potts model of a graph is the score of the joint feature vector, with what
true labels add and the scores of all edges. -/
theorem IsModel.exactScore_eq {truth : Option Labeling} {m : PottsModel Rat}
    (h : IsModel layout g weights truth m) {y : Labeling} (hy : y.length = g.order) :
    m.exactScore y =
      jointValue layout g weights y + Labeling.lossOffset truth y
        + (edgeValues layout g weights).sum := by
  have hnodes : ∑ i ∈ Finset.range m.order, (if y.getD i false then m.potentials.getD i 0 else 0) =
      ((g.trueVectors y).map (layout.blockValue .node weights)).sum
        + Labeling.lossOffset truth y := by
    have hlength : y.length = m.potentials.length := hy.trans h.order_eq.symm
    have hvalues : (nodeValues layout g weights).length = y.length := by
      rw [nodeValues, List.length_map, hy]
      rfl
    have htrue : (List.zipWith (fun mark x => if mark then x else 0) y
        (nodeValues layout g weights)).sum =
          ((g.trueVectors y).map (layout.blockValue .node weights)).sum :=
      sum_zipWith_map _ y
    rw [PottsModel.order, ← PottsModel.sum_zipWith_eq_sum_range hlength, h.potentials_eq]
    cases truth with
    | none => rw [Option.elim_none, htrue, Labeling.lossOffset, Option.elim_none, add_zero]
    | some t =>
      have ht : t.length = y.length := (h.truth_length t rfl).trans hy.symm
      rw [Option.elim_some, sum_zipWith_augmented hvalues ht, htrue, Labeling.lossOffset,
        Option.elim_some]
  have hedges : (m.couplings.map fun c => if PottsModel.Agree y c then c.weight else 0).sum =
      (edgeValues layout g weights).sum
        - ((g.cutVectors y).map (layout.blockValue .edge weights)).sum := by
    have hall : (g.featuredEdges.map fun f => layout.blockValue .edge weights f.2) =
        edgeValues layout g weights := by
      have hvectors : g.featuredEdges.map Prod.snd = g.edgeVectors :=
        List.map_snd_zip h.count_eq.ge
      rw [edgeValues, ← hvectors, List.map_map]
      rfl
    rw [h.couplings_eq_map, List.map_map, ← hall, eq_sub_iff_add_eq]
    exact sum_agree_add_sum_cut _ y _
  rw [PottsModel.exactScore, hnodes, hedges, jointValue]
  ring

/-- Graphs whose vectors fit have scores. -/
lemma scored_of_fits (hnode : ∀ v ∈ g.nodes, layout.Fits .node v)
    (hedge : ∀ v ∈ g.edgeVectors, layout.Fits .edge v) (hweights : weights.length = layout.total)
    (hnodeDims : 0 ≤ layout.nodeDims) (hedgeDims : 0 ≤ layout.edgeDims) :
    Scored layout g weights := by
  refine ⟨hweights, ?_, ?_⟩
  · intro v hv
    obtain ⟨s, hs⟩ := FeatureLayout.exists_blockScore hweights hnodeDims hedgeDims (hnode v hv)
    rw [FeatureLayout.blockValue_eq v s hs, hs]
  · intro v hv
    obtain ⟨s, hs⟩ := FeatureLayout.exists_blockScore hweights hnodeDims hedgeDims (hedge v hv)
    rw [FeatureLayout.blockValue_eq v s hs, hs]

/-- Graphs whose vectors have scores, those of edges not negative, have a Potts model. -/
lemma exists_pottsModel (h : Scored layout g weights)
    (hcount : g.edges.pairs.length = g.edgeVectors.length)
    (hnonneg : ∀ v ∈ g.edgeVectors, 0 ≤ layout.blockValue .edge weights v)
    {truth : Option Labeling} (htruth : ∀ t ∈ truth, t.length = g.order) :
    ∃ m, pottsModel layout g weights truth = .ok m := by
  have hlength : (g.edges.pairs.map fun e => ((e.1 : ℤ), (e.2 : ℤ))).length =
      (edgeValues layout g weights).length := by
    rw [List.length_map, edgeValues, List.length_map, hcount]
  have hvalues : ∀ x ∈ edgeValues layout g weights, 0 ≤ x := by
    intro x hx
    obtain ⟨v, hv, rfl⟩ := List.mem_map.1 hx
    exact hnonneg v hv
  obtain ⟨m, hm⟩ := exists_ofLists
    (truth.elim (nodeValues layout g weights) (augmented (nodeValues layout g weights)))
    hlength hvalues
  exact ⟨m, by rw [pottsModel_eq h htruth, hm]; rfl⟩

/-- The objective of the Potts model of a graph and the score of its joint feature vector differ by
a constant, that is by the sum of the scores of all edges; with true labels the loss is added, and
the number of true labels taken away.  There is a Potts model if no length of the layout is negative.
-/
theorem score?_pottsModel (layout : FeatureLayout) (g : LabeledGraph Rat) (weights : List Rat)
    (truth y : Labeling) (hcount : g.edges.pairs.length = g.edgeVectors.length)
    (hnode : ∀ v ∈ g.nodes, layout.Fits .node v)
    (hedge : ∀ v ∈ g.edgeVectors, layout.Fits .edge v)
    (hweights : weights.length = layout.total)
    (hnonneg : ∀ v ∈ g.edgeVectors, ∀ s, layout.blockScore .edge weights v = .ok s → 0 ≤ s)
    (htruth : truth.length = g.order) (hy : y.length = g.order) :
    (0 ≤ layout.nodeDims → 0 ≤ layout.edgeDims →
      (∃ m, pottsModel layout g weights none = .ok m) ∧
        ∃ m, pottsModel layout g weights (some truth) = .ok m) ∧
    (∀ m, pottsModel layout g weights none = .ok m →
      ∃ psi score edgeScores, g.jointVector g.kind layout y = .ok psi ∧
        layout.score psi weights = .ok score ∧
        scores layout .edge weights g.edgeVectors = .ok edgeScores ∧
        m.score? y = some (score + edgeScores.sum)) ∧
    ∀ m, pottsModel layout g weights (some truth) = .ok m →
      ∃ psi score edgeScores loss, g.jointVector g.kind layout y = .ok psi ∧
        layout.score psi weights = .ok score ∧
        scores layout .edge weights g.edgeVectors = .ok edgeScores ∧
        Labeling.loss truth y = .ok loss ∧
        m.score? y = some (score + loss + edgeScores.sum - truth.count true) := by
  refine ⟨?_, ?_, ?_⟩
  · intro hnodeDims hedgeDims
    have hscored := scored_of_fits hnode hedge hweights hnodeDims hedgeDims
    have hvalues : ∀ v ∈ g.edgeVectors, 0 ≤ layout.blockValue .edge weights v :=
      fun v hv => hnonneg v hv _ (hscored.edge v hv)
    refine ⟨exists_pottsModel hscored hcount hvalues ?_,
      exists_pottsModel hscored hcount hvalues ?_⟩
    · intro t ht
      cases ht
    · rintro _ ⟨⟩
      exact htruth
  · intro m hm
    have hmodel := isModel_of_pottsModel hm
    obtain ⟨psi, hpsi, -, hscore⟩ := exists_jointVector hmodel.scored hy
    refine ⟨psi, _, _, hpsi, hscore, scores_eq_ok_iff.2 ⟨hmodel.scored.edge, rfl⟩, ?_⟩
    rw [PottsModel.score?_eq hmodel.joinsNodes (hy.trans hmodel.order_eq.symm),
      hmodel.exactScore_eq hy, Labeling.lossOffset, Option.elim_none, add_zero]
    rfl
  · intro m hm
    have hmodel := isModel_of_pottsModel hm
    obtain ⟨psi, hpsi, -, hscore⟩ := exists_jointVector hmodel.scored hy
    refine ⟨psi, _, _, _, hpsi, hscore, scores_eq_ok_iff.2 ⟨hmodel.scored.edge, rfl⟩,
      Labeling.loss_eq (htruth.trans hy.symm), ?_⟩
    rw [PottsModel.score?_eq hmodel.joinsNodes (hy.trans hmodel.order_eq.symm),
      hmodel.exactScore_eq hy, Labeling.lossOffset, Option.elim_some, edgeValues]
    congr 1
    ring

/-- Two nodes with an edge between them and an edge from one of them to itself.  Some indices are
repeated. -/
def loopGraph : LabeledGraph Rat where
  kind := .sparse
  nodes := [.sparse [(0, 1), (0, 2)], .sparse []]
  edges := ⟨[(0, 1), (1, 1)], by decide, by decide⟩
  edgeVectors := [.sparse [(1, 1 / 2), (1, 1 / 2)], .sparse [(0, 3)]]
  kind_of_mem_nodes := by simp [FeatureVector.kind]
  kind_of_mem_edgeVectors := by simp [FeatureVector.kind]

theorem score?_pottsModel_loopGraph :
    ∃ m psi score edgeScores loss,
      pottsModel ⟨1, 2⟩ loopGraph [1, 2, -3] (some [true, false]) = .ok m ∧
      loopGraph.jointVector .sparse ⟨1, 2⟩ [false, true] = .ok psi ∧
      FeatureLayout.score ⟨1, 2⟩ psi [1, 2, -3] = .ok score ∧
      scores ⟨1, 2⟩ .edge [1, 2, -3] loopGraph.edgeVectors = .ok edgeScores ∧
      Labeling.loss [true, false] [false, true] = .ok loss ∧
      m.score? [false, true] = some (score + loss + edgeScores.sum - 1) := by
  have hnonneg : ∀ v ∈ loopGraph.edgeVectors, ∀ s,
      FeatureLayout.blockScore ⟨1, 2⟩ .edge [1, 2, -3] v = .ok s → 0 ≤ s := by
    intro v hv s hs
    have hv : v = .sparse [(1, 1 / 2), (1, 1 / 2)] ∨ v = .sparse [(0, 3)] := by
      simpa [loopGraph] using hv
    rcases hv with rfl | rfl
    · have hscore : FeatureLayout.blockScore ⟨1, 2⟩ .edge ([1, 2, -3] : List Rat)
          (.sparse [(1, 1 / 2), (1, 1 / 2)]) = .ok 2 := by decide +kernel
      rw [hscore] at hs
      cases hs
      norm_num
    · have hscore : FeatureLayout.blockScore ⟨1, 2⟩ .edge ([1, 2, -3] : List Rat)
          (.sparse [(0, 3)]) = .ok 3 := by decide +kernel
      rw [hscore] at hs
      cases hs
      norm_num
  obtain ⟨hexists, -, htruth⟩ := score?_pottsModel ⟨1, 2⟩ loopGraph [1, 2, -3] [true, false]
    [false, true] rfl (by decide) (by decide) rfl hnonneg rfl rfl
  obtain ⟨-, m, hm⟩ := hexists (by decide) (by decide)
  obtain ⟨psi, score, edgeScores, loss, hpsi, hscore, hedges, hloss, hobjective⟩ := htruth m hm
  exact ⟨m, psi, score, edgeScores, loss, hm, hpsi, hscore, hedges, hloss, hobjective⟩

end SeparationOracle

end PottsOracle
