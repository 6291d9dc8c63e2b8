import PottsOracle.Proofs.Oracle.Objective
import PottsOracle.Proofs.Potts.Rounding
import PottsOracle.Proofs.Dataset.WellFormed

/-!
# The most violated constraint

The oracle answers with the loss and the joint feature vector of one labeling, and no labeling has a
larger sum of loss and score than that one, but for the tolerance of the solver.  The Potts model of
the sample connects the two sides: its objective is loss and score up to a constant, and the solver
finds a labeling whose objective is near the optimum.
-/

namespace PottsOracle

namespace PottsModel

/-- By how much the labeling of a solver may miss the optimum: the search finds it, the minimum cut
may be off by one unit for every capacity that is not zero. -/
def tolerance (m : PottsModel Rat) : Solver → Rat
  | .exhaustive => 0
  | .minCut =>
    (m.potentials.countP (· ≠ 0) + m.couplings.countP (·.weight ≠ 0) : Nat) * m.maxCapacity / 2 ^ 40

variable {m : PottsModel Rat}

lemma roundedCount_le :
    m.roundedCount ≤ m.potentials.countP (· ≠ 0) + m.couplings.countP (·.weight ≠ 0) := by
  refine Nat.add_le_add_left (List.countP_mono_left ?_) _
  intro c _ hc
  simp only [decide_eq_true_eq] at hc ⊢
  exact hc.1

/-- A solver finds a labeling whose objective no other one exceeds by more than the tolerance.  The
search is for few nodes. -/
lemma exists_solve (hm : m.JoinsNodes) (hsimple : m.IsSimple) {solver : Solver}
    (hsearch : solver = .exhaustive → m.order ≤ maxSearchedNodes) :
    ∃ y, m.solve solver = .ok y ∧ y.length = m.order ∧
      ∀ z : Labeling, z.length = m.order →
        m.exactScore z - m.tolerance solver ≤ m.exactScore y := by
  cases solver with
  | minCut =>
    obtain ⟨y, hfound, hgreatest⟩ := minCutLabeling_eq hm
    refine ⟨y, hfound, hgreatest.length_eq, ?_⟩
    intro z hz
    have hnear := exactScore_sub_le hm hsimple (hgreatest.le z hz)
    have hcount : (m.roundedCount : Rat) * m.maxCapacity / 2 ^ 40 ≤ m.tolerance .minCut := by
      have hle : (m.roundedCount : Rat) ≤
          (m.potentials.countP (· ≠ 0) + m.couplings.countP (·.weight ≠ 0) : Nat) := by
        exact_mod_cast roundedCount_le
      rw [tolerance]
      exact div_le_div_of_nonneg_right (mul_le_mul_of_nonneg_right hle m.maxCapacity_nonneg)
        (by norm_num)
    linarith
  | exhaustive =>
    obtain ⟨y, hfound, hy, hbest⟩ := exhaustiveLabeling_eq hm (hsearch rfl)
    refine ⟨y, hfound, hy, ?_⟩
    intro z hz
    rw [tolerance, sub_zero]
    exact hbest.le (List.mem_cons_of_mem _ (mem_allLabelings.2 hz))

end PottsModel

namespace FeatureVector

lemma entry_nonneg_of_dense {entries : List Rat} (h : (dense entries).hasNegativeEntry = false) :
    ∀ x ∈ entries, 0 ≤ x := by
  intro x hx
  by_contra hneg
  have hany := (Scalar.minimum?_any_lt_zero_iff entries).2 ⟨x, hx, not_le.1 hneg⟩
  rw [hasNegativeEntry, hany] at h
  cases h

lemma entry_nonneg_of_sparse {terms : List (ℤ × Rat)} (h : (sparse terms).hasNegativeEntry = false) :
    ∀ term ∈ terms, 0 ≤ term.2 := by
  intro term hterm
  by_contra hneg
  have hany : (sparse terms).hasNegativeEntry = true :=
    List.any_eq_true.2 ⟨term, hterm, decide_eq_true (not_le.1 hneg)⟩
  rw [hany] at h
  cases h

end FeatureVector

namespace FeatureLayout

variable {layout : FeatureLayout} {weights : List Rat}

/-- The first weights are those of edges. -/
lemma blockWeights_edge (h : 0 ≤ layout.edgeDims) :
    layout.blockWeights .edge weights = weights.take layout.edgeDims.toNat := by
  rw [blockWeights, boundary, Place.cut, if_pos h, ← List.take_eq_take_min]

/-- The weight at an index is one of the first weights. -/
lemma mem_take_of_weightAt {i : ℤ} {n : Nat} {w : Rat} (h0 : 0 ≤ i) (hi : i < n)
    (h : weightAt weights i = .ok w) : w ∈ weights.take n := by
  rw [weightAt, Place.get?, if_pos h0] at h
  cases hget : weights[i.toNat]? with
  | none =>
    rw [hget] at h
    cases h
  | some x =>
    rw [hget] at h
    cases h
    have htake : (weights.take n)[i.toNat]? = some w := by
      rw [List.getElem?_take_of_lt (by omega), hget]
    exact List.mem_of_getElem? htake

/-- Edge vectors without negative entries have no negative score under edge weights that are not
negative. -/
lemma blockValue_edge_nonneg (hdims : 0 ≤ layout.edgeDims)
    (hweights : ∀ w ∈ weights.take layout.edgeDims.toNat, 0 ≤ w) {v : FeatureVector Rat}
    (hv : v.hasNegativeEntry = false) : 0 ≤ layout.blockValue .edge weights v := by
  cases hscore : layout.blockScore .edge weights v with
  | error e =>
    rw [blockValue, hscore]
    exact le_rfl
  | ok s =>
    rw [blockValue_eq v s hscore]
    cases v with
    | dense entries =>
      obtain ⟨-, -, rfl⟩ := blockScore_dense_eq_ok_iff.1 hscore
      rw [blockWeights_edge hdims]
      exact Scalar.dot_nonneg hweights (FeatureVector.entry_nonneg_of_dense hv)
    | sparse terms =>
      obtain ⟨hblock, xs, hxs, rfl⟩ := blockScore_sparse_eq_ok_iff.1 hscore
      refine List.sum_nonneg (forall_mem_of_forall₂ hxs ?_)
      rintro term hterm x ⟨w, hw, rfl⟩
      obtain ⟨hi0, hi⟩ := hblock term hterm
      have hi : term.1 < layout.edgeDims := hi
      have hplace : term.1 + layout.offset .edge = term.1 := add_zero term.1
      rw [hplace] at hw
      exact mul_nonneg (hweights w (mem_take_of_weightAt hi0 (by omega) hw))
        (FeatureVector.entry_nonneg_of_sparse hv term hterm)

end FeatureLayout

namespace SeparationOracle

variable {layout : FeatureLayout} {g : LabeledGraph Rat} {weights : List Rat}

/-- Graphs have no repeated edges, and neither have their models. -/
lemma IsModel.isSimple {truth : Option Labeling} {m : PottsModel Rat}
    (h : IsModel layout g weights truth m) : m.IsSimple := by
  have hpairs : g.featuredEdges.map Prod.fst = g.edges.pairs := List.map_fst_zip h.count_eq.le
  have hdistinct := g.edges.distinct
  rw [← hpairs, List.pairwise_map] at hdistinct
  rw [PottsModel.IsSimple, h.couplings_eq_map, List.pairwise_map]
  refine hdistinct.imp ?_
  intro e f hends _ hsame
  refine hends ?_
  rcases Sym2.eq_iff.1 hsame with ⟨hfirst, hsecond⟩ | ⟨hfirst, hsecond⟩
  · exact Or.inl (Prod.ext (Int.ofNat.inj hfirst) (Int.ofNat.inj hsecond))
  · exact Or.inr (Prod.ext (Int.ofNat.inj hfirst) (Int.ofNat.inj hsecond))

/-- The oracle answers with a labeling for which no other one makes the sum of loss and score larger
by more than the tolerance of the solver. -/
lemma exists_findLabeling (oracle : SeparationOracle) (g : LabeledGraph Rat) (truth : Labeling)
    {m : PottsModel Rat} (hm : pottsModel oracle.layout g weights (some truth) = .ok m)
    (hsearch : oracle.solver = .exhaustive → g.order ≤ maxSearchedNodes) :
    ∃ y, oracle.findLabeling g weights (some truth) = .ok y ∧ y.length = g.order ∧
      ∀ z : Labeling, z.length = g.order →
        Labeling.mistakes truth z + jointValue oracle.layout g weights z
            - m.tolerance oracle.solver ≤
          Labeling.mistakes truth y + jointValue oracle.layout g weights y := by
  have hmodel := isModel_of_pottsModel hm
  have horder := hmodel.order_eq
  obtain ⟨y, hsolve, hy, hbest⟩ :=
    PottsModel.exists_solve hmodel.joinsNodes hmodel.isSimple (horder ▸ hsearch)
  rw [horder] at hy
  refine ⟨y, ?_, hy, ?_⟩
  · rw [findLabeling, hm]
    exact mapError_eq_ok_iff.2 hsolve
  · intro z hz
    have hle := hbest z (hz.trans horder.symm)
    -- what the objective has on top of loss and score is the same for both labelings
    rw [hmodel.exactScore_eq hz, hmodel.exactScore_eq hy] at hle
    simp only [Labeling.lossOffset, Option.elim_some] at hle
    linarith

end SeparationOracle

namespace Problem

variable {p : Problem Rat} {s : Sample Rat} {weights : List Rat}

/-- Samples of a ready problem have scores under weights of the right length. -/
lemma IsReady.scored (h : p.IsReady) (hs : s ∈ p.samples) (hweights : weights.length = p.totalDims) :
    SeparationOracle.Scored p.layout s.graph weights :=
  SeparationOracle.scored_of_fits (h.fits s hs .node) (h.fits s hs .edge) hweights
    (h.dims_nonneg .node) (h.dims_nonneg .edge)

/-- Samples of a ready problem have a Potts model under weights that are not negative for edges, with
true labels or without. -/
lemma IsReady.exists_model (h : p.IsReady) (hs : s ∈ p.samples)
    (hcount : s.graph.edges.pairs.length = s.graph.edgeVectors.length)
    (hweights : weights.length = p.totalDims)
    (hnonneg : ∀ w ∈ weights.take p.edgeWeights.toNat, 0 ≤ w) {truth : Option Labeling}
    (htruth : ∀ t ∈ truth, t.length = s.graph.order) :
    ∃ m, SeparationOracle.pottsModel p.layout s.graph weights truth = .ok m := by
  refine SeparationOracle.exists_pottsModel (h.scored hs hweights) hcount ?_ htruth
  intro v hv
  exact FeatureLayout.blockValue_edge_nonneg (h.dims_nonneg .edge) hnonneg (h.entry_nonneg s hs v hv)

lemma IsReady.exists_pottsModel (h : p.IsReady) (hs : s ∈ p.samples)
    (hcount : s.graph.edges.pairs.length = s.graph.edgeVectors.length)
    (hweights : weights.length = p.totalDims)
    (hnonneg : ∀ w ∈ weights.take p.edgeWeights.toNat, 0 ≤ w) :
    ∃ m, SeparationOracle.pottsModel p.layout s.graph weights (some s.truth) = .ok m := by
  refine h.exists_model hs hcount hweights hnonneg ?_
  rintro _ ⟨⟩
  exact h.length_eq s hs

/-- Every labeling of a sample has a joint feature vector. -/
lemma IsReady.exists_jointVector (h : p.IsReady) (hs : s ∈ p.samples)
    (hweights : weights.length = p.totalDims) {y : Labeling} (hy : y.length = s.graph.order) :
    ∃ psi, s.graph.jointVector s.graph.kind p.layout y = .ok psi ∧ p.jointVector s y = .ok psi ∧
      p.score psi weights = .ok (SeparationOracle.jointValue p.layout s.graph weights y) := by
  obtain ⟨psi, hpsi, -, hscore⟩ :=
    SeparationOracle.exists_jointVector (h.scored hs hweights) hy
  refine ⟨psi, hpsi, ?_, ?_⟩
  · rw [jointVector, ← h.kind_eq s hs, hpsi]
    rfl
  · rw [score, hscore]
    rfl

/-- The answer of the oracle for a sample of a valid dataset is the most violated constraint: loss
and joint feature vector of one labeling, for which the sum of loss and score is largest, but for
the tolerance of the solver. -/
theorem separate_mostViolated (d : Dataset Rat) (solver : Solver) (p : Problem Rat)
    (hp : ofDataset d solver = .ok p) (hbuilt : ∀ g, some g ∈ d.samples → g.IsBuilt)
    (index : ℤ) (hindex : 0 ≤ index ∧ index < p.size) (weights : List Rat)
    (hweights : weights.length = p.totalDims)
    (hnonneg : ∀ w ∈ weights.take p.edgeWeights.toNat, 0 ≤ w) :
    ∃ s, p.sample index = .ok s ∧
      ((solver = .exhaustive → s.graph.order ≤ maxSearchedNodes) →
        ∃ m c best y, p.separate s weights = .ok c ∧
          SeparationOracle.pottsModel p.layout s.graph weights (some s.truth) = .ok m ∧
          y.length = s.graph.order ∧ Labeling.loss s.truth y = .ok c.loss ∧
          p.jointVector s y = .ok c.vector ∧ p.score c.vector weights = .ok best ∧
          ∀ z : Labeling, z.length = s.graph.order →
            ∃ loss psi score, Labeling.loss s.truth z = .ok loss ∧ p.jointVector s z = .ok psi ∧
              p.score psi weights = .ok score ∧
              loss + score - m.tolerance solver ≤ c.loss + best) := by
  have hready := isReady_of_ofDataset hp
  obtain ⟨-, hsamples, rfl, -, -⟩ := ofDataset_eq_ok hp
  have hlt : index.toNat < p.samples.length := by
    have hsize : index < p.samples.length := hindex.2
    omega
  have hs : p.samples[index.toNat] ∈ p.samples := List.getElem_mem hlt
  refine ⟨p.samples[index.toNat], ?_, ?_⟩
  · rw [sample, if_pos hindex.1, List.getElem?_eq_getElem hlt]
  generalize p.samples[index.toNat] = s at hs
  intro hsearch
  have hcount := (hbuilt s.graph (exists_of_mem_samplesOf (hsamples ▸ hs)).1).count_eq
  have htruth := hready.length_eq s hs
  obtain ⟨m, hm⟩ := hready.exists_pottsModel hs hcount hweights hnonneg
  obtain ⟨y, hfound, hy, hbest⟩ :=
    SeparationOracle.exists_findLabeling p.oracle s.graph s.truth hm hsearch
  obtain ⟨psi, hconstraint, hpsi, hscore⟩ := hready.exists_jointVector hs hweights hy
  have hloss := Labeling.loss_eq (htruth.trans hy.symm)
  refine ⟨m, ⟨Labeling.mistakes s.truth y, psi⟩, _, y, ?_, hm, hy, hloss, hpsi, hscore, ?_⟩
  · rw [separate, mapError_eq_ok_iff, SeparationOracle.solve, hfound]
    refine bind_eq_ok_iff.2 ⟨y, rfl, bind_eq_ok_iff.2 ⟨_, mapError_eq_ok_iff.2 hloss, ?_⟩⟩
    exact bind_eq_ok_iff.2 ⟨psi, mapError_eq_ok_iff.2 hconstraint, rfl⟩
  · intro z hz
    obtain ⟨other, -, hother, hotherScore⟩ := hready.exists_jointVector hs hweights hz
    refine ⟨_, other, _, Labeling.loss_eq (htruth.trans hz.symm), hother, hotherScore, ?_⟩
    exact hbest z hz

/-- Two nodes and an edge, with dense vectors. -/
def pairGraph : LabeledGraph Rat where
  kind := .dense
  nodes := [.dense [1, 2], .dense [-1, 0]]
  edges := ⟨[(1, 0)], by decide, EdgeList.distinct_pair⟩
  edgeVectors := [.dense [3]]
  kind_of_mem_nodes := by simp [FeatureVector.kind]
  kind_of_mem_edgeVectors := by simp [FeatureVector.kind]

lemma isBuilt_pairGraph : pairGraph.IsBuilt :=
  ⟨.dense, [.dense [1, 2], .dense [-1, 0]], [(1, 0)], [.dense [3]], rfl⟩

/-- One sample, with labels in two forms. -/
def pairDataset : Dataset Rat := ⟨[some pairGraph], [.list [.bool true, .int 0]]⟩

/-- The problem of one sample. -/
def pairProblem : Problem Rat := ⟨[⟨pairGraph, [true, false]⟩], .dense, ⟨2, 1⟩, .minCut⟩

lemma ofDataset_pairDataset : ofDataset pairDataset .minCut = .ok pairProblem := by
  have hdefects : pairDataset.defects = .ok [] := by decide +kernel
  rw [ofDataset, hdefects]
  rfl

theorem separate_mostViolated_pairProblem :
    ∃ s, pairProblem.sample 0 = .ok s ∧
      ∃ m c best y, pairProblem.separate s [1 / 2, 1, -1] = .ok c ∧
        SeparationOracle.pottsModel pairProblem.layout s.graph [1 / 2, 1, -1] (some s.truth) = .ok m ∧
        y.length = s.graph.order ∧ Labeling.loss s.truth y = .ok c.loss ∧
        pairProblem.jointVector s y = .ok c.vector ∧
        pairProblem.score c.vector [1 / 2, 1, -1] = .ok best ∧
        ∀ z : Labeling, z.length = s.graph.order →
          ∃ loss psi score, Labeling.loss s.truth z = .ok loss ∧
            pairProblem.jointVector s z = .ok psi ∧
            pairProblem.score psi [1 / 2, 1, -1] = .ok score ∧
            loss + score - m.tolerance .minCut ≤ c.loss + best := by
  have hbuilt : ∀ g, some g ∈ pairDataset.samples → g.IsBuilt := by
    intro g hg
    have hg : g = pairGraph := by simpa [pairDataset] using hg
    rw [hg]
    exact isBuilt_pairGraph
  have hnonneg : ∀ w ∈ ([1 / 2, 1, -1] : List Rat).take pairProblem.edgeWeights.toNat, 0 ≤ w := by
    intro w hw
    have hw : w = 1 / 2 := by simpa [pairProblem, edgeWeights] using hw
    rw [hw]
    norm_num
  obtain ⟨s, hs, hanswer⟩ := separate_mostViolated pairDataset .minCut pairProblem
    ofDataset_pairDataset hbuilt 0 ⟨le_rfl, by decide⟩ [1 / 2, 1, -1] rfl hnonneg
  exact ⟨s, hs, hanswer fun h => by cases h⟩

end Problem

end PottsOracle
