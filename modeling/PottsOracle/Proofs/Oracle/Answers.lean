import PottsOracle.Proofs.Oracle.JointVector
import PottsOracle.Proofs.Oracle.MostViolated

/-!
# A valid dataset always has answers

Once a problem has been made of a dataset, no query for one of its samples fails, except that the
exhaustive search refuses more nodes than it can search (`Problem.ofDataset_answers`).  All vectors
that are answered have the layout of the problem.

What a query needs is split in two.  Everything up to the Potts model never fails; then a solver
finds a labeling, or refuses the number of nodes.
-/

namespace PottsOracle

namespace Labeling

lemma mistakes_le_length (truth y : Labeling) : mistakes truth y ≤ truth.length := by
  refine List.countP_le_length.trans ?_
  rw [List.length_zip]
  exact min_le_left _ _

end Labeling

/-- What a solver finds labels all nodes. -/
lemma PottsModel.length_of_solve {K : Type} [Scalar K] {m : PottsModel K} {solver : Solver}
    {y : Labeling} (h : m.solve solver = .ok y) : y.length = m.order := by
  cases solver with
  | minCut => exact length_of_minCutLabeling h
  | exhaustive => exact length_of_searchAll h

namespace SeparationOracle

variable (oracle : SeparationOracle) {g : LabeledGraph Rat} {weights : List Rat}
  {truth : Option Labeling} {m : PottsModel Rat}

lemma findLabeling_eq (hm : pottsModel oracle.layout g weights truth = .ok m) :
    oracle.findLabeling g weights truth = (m.solve oracle.solver).mapError .solver := by
  rw [findLabeling, hm]
  rfl

/-- A solver that can take the number of nodes labels all of them. -/
lemma exists_labeling (hm : pottsModel oracle.layout g weights truth = .ok m)
    (hsearch : oracle.solver = .exhaustive → g.order ≤ maxSearchedNodes) :
    ∃ y, oracle.findLabeling g weights truth = .ok y ∧ y.length = g.order := by
  have hmodel := isModel_of_pottsModel hm
  have horder := hmodel.order_eq
  obtain ⟨y, hsolve, hy, -⟩ :=
    PottsModel.exists_solve hmodel.joinsNodes hmodel.isSimple (horder ▸ hsearch)
  refine ⟨y, ?_, hy.trans horder⟩
  rw [findLabeling_eq oracle hm, hsolve]
  rfl

/-- The exhaustive search refuses too many nodes. -/
lemma findLabeling_eq_error (hm : pottsModel oracle.layout g weights truth = .ok m)
    (hsolver : oracle.solver = .exhaustive) (hmany : maxSearchedNodes < g.order) :
    oracle.findLabeling g weights truth = .error (.solver (.tooManyNodes g.order)) := by
  have horder := (isModel_of_pottsModel hm).order_eq
  rw [findLabeling_eq oracle hm, hsolver, PottsModel.solve,
    PottsModel.exhaustiveLabeling_of_lt (horder ▸ hmany), horder]
  rfl

lemma constraint_eq {layout : FeatureLayout} {truth y : Labeling} {loss : Rat}
    {psi : FeatureVector Rat} (hloss : Labeling.loss truth y = .ok loss)
    (hpsi : g.jointVector g.kind layout y = .ok psi) :
    constraint layout g truth y = .ok ⟨loss, psi⟩ := by
  rw [constraint, hloss, hpsi]
  rfl

/-- The constraint that is answered is that of the labeling that is found. -/
lemma solve_eq {truth y : Labeling} {psi : FeatureVector Rat}
    (hfound : oracle.findLabeling g weights (some truth) = .ok y) (hlength : truth.length = y.length)
    (hpsi : g.jointVector g.kind oracle.layout y = .ok psi) :
    oracle.solve g truth weights = .ok ⟨Labeling.mistakes truth y, psi⟩ := by
  rw [solve, hfound]
  exact constraint_eq (Labeling.loss_eq hlength) hpsi

lemma exists_of_solve {truth : Labeling} {c : Constraint Rat}
    (h : oracle.solve g truth weights = .ok c) :
    ∃ y, oracle.findLabeling g weights (some truth) = .ok y ∧ Labeling.loss truth y = .ok c.loss ∧
      g.jointVector g.kind oracle.layout y = .ok c.vector := by
  obtain ⟨y, hfound, h⟩ := bind_eq_ok_iff.1 h
  obtain ⟨loss, hloss, h⟩ := bind_eq_ok_iff.1 h
  obtain ⟨psi, hpsi, h⟩ := bind_eq_ok_iff.1 h
  cases h
  exact ⟨y, hfound, mapError_eq_ok_iff.1 hloss, mapError_eq_ok_iff.1 hpsi⟩

end SeparationOracle

namespace Problem

variable {p : Problem Rat} {s : Sample Rat} {y : Labeling} {weights : List Rat}

/-- Every labeling of a sample has a joint feature vector in the layout. -/
lemma IsReady.exists_vector (h : p.IsReady) (hs : s ∈ p.samples) (hy : y.length = s.graph.order) :
    ∃ psi, s.graph.jointVector s.graph.kind p.layout y = .ok psi ∧ p.jointVector s y = .ok psi ∧
      psi.kind = p.kind ∧ p.layout.Holds psi := by
  have htotal := FeatureLayout.total_nonneg h.dims_nonneg
  -- any weights of the right length will do
  have hzeros : (List.replicate p.layout.total.toNat (0 : Rat)).length = p.totalDims := by
    rw [List.length_replicate]
    exact Int.toNat_of_nonneg htotal
  have hscored := h.scored hs hzeros
  obtain ⟨psi, hpsi, hkind, -⟩ := SeparationOracle.exists_jointVector hscored hy
  refine ⟨psi, hpsi, ?_, hkind.trans (h.kind_eq s hs), hscored.holds h.dims_nonneg hpsi⟩
  rw [jointVector, ← h.kind_eq s hs, hpsi]
  rfl

/-- The constraint of a labeling can be stated, and its loss is a number of nodes. -/
lemma IsReady.exists_constraint (h : p.IsReady) (hs : s ∈ p.samples)
    (hy : y.length = s.graph.order) :
    ∃ c, SeparationOracle.constraint p.layout s.graph s.truth y = .ok c ∧
      c.vector.kind = p.kind ∧ p.layout.Holds c.vector ∧ 0 ≤ c.loss ∧ c.loss ≤ s.graph.order := by
  obtain ⟨psi, hpsi, -, hkind, hholds⟩ := h.exists_vector hs hy
  have htruth := h.length_eq s hs
  have hloss := Labeling.loss_eq (htruth.trans hy.symm)
  have hle : Labeling.mistakes s.truth y ≤ s.graph.order :=
    (Labeling.mistakes_le_length s.truth y).trans_eq htruth
  exact ⟨⟨Labeling.mistakes s.truth y, psi⟩, SeparationOracle.constraint_eq hloss hpsi, hkind,
    hholds, Nat.cast_nonneg _, Nat.cast_le.2 hle⟩

/-- There is a sample for every number in range. -/
lemma exists_sample {index : ℤ} (hindex : 0 ≤ index ∧ index < p.size) :
    ∃ s ∈ p.samples, p.sample index = .ok s := by
  have hlt : index.toNat < p.samples.length := by
    have hsize : index < p.samples.length := hindex.2
    omega
  refine ⟨p.samples[index.toNat], List.getElem_mem hlt, ?_⟩
  rw [sample, if_pos hindex.1, List.getElem?_eq_getElem hlt]

/-- If graphs were built from edge lists, the samples of a valid dataset have a vector for every
edge. -/
lemma exists_countedSample {d : Dataset Rat} {solver : Solver} (hp : ofDataset d solver = .ok p)
    (hbuilt : ∀ g, some g ∈ d.samples → g.IsBuilt) {index : ℤ} (hindex : 0 ≤ index ∧ index < p.size) :
    ∃ s ∈ p.samples, p.sample index = .ok s ∧
      s.graph.edges.pairs.length = s.graph.edgeVectors.length := by
  obtain ⟨-, hsamples, -, -, -⟩ := ofDataset_eq_ok hp
  obtain ⟨s, hs, hsample⟩ := exists_sample hindex
  have hmem := (exists_of_mem_samplesOf (hsamples ▸ hs)).1
  exact ⟨s, hs, hsample, (hbuilt s.graph hmem).count_eq⟩

/-- A most violated constraint is found unless there are too many nodes to search. -/
lemma IsReady.exists_separate (h : p.IsReady) (hs : s ∈ p.samples) {m : PottsModel Rat}
    (hm : SeparationOracle.pottsModel p.layout s.graph weights (some s.truth) = .ok m)
    (hsearch : p.solver = .exhaustive → s.graph.order ≤ maxSearchedNodes) :
    ∃ c, p.separate s weights = .ok c ∧ c.vector.kind = p.kind ∧ p.layout.Holds c.vector ∧
      0 ≤ c.loss ∧ c.loss ≤ s.graph.order := by
  obtain ⟨y, hfound, hy⟩ := SeparationOracle.exists_labeling p.oracle hm hsearch
  obtain ⟨c, hconstraint, hanswer⟩ := h.exists_constraint hs hy
  exact ⟨c, mapError_eq_ok_iff.2 (bind_eq_ok_iff.2 ⟨y, hfound, hconstraint⟩), hanswer⟩

/-- A best labeling is found unless there are too many nodes to search. -/
lemma exists_predict {m : PottsModel Rat}
    (hm : SeparationOracle.pottsModel p.layout s.graph weights none = .ok m)
    (hsearch : p.solver = .exhaustive → s.graph.order ≤ maxSearchedNodes) :
    ∃ y, p.predict s weights = .ok y ∧ y.length = s.graph.order := by
  obtain ⟨y, hfound, hy⟩ := SeparationOracle.exists_labeling p.oracle hm hsearch
  exact ⟨y, mapError_eq_ok_iff.2 hfound, hy⟩

/-- For a sample of a valid dataset there are a joint feature vector for the true labels and for every
other labeling, and under weights that are not negative for edges the most violated constraint and a
best labeling.  Only the exhaustive search refuses samples, and only those of too many nodes. -/
theorem ofDataset_answers (d : Dataset Rat) (solver : Solver) (p : Problem Rat)
    (hp : ofDataset d solver = .ok p) (hbuilt : ∀ g, some g ∈ d.samples → g.IsBuilt)
    (index : ℤ) (hindex : 0 ≤ index ∧ index < p.size) :
    ∃ s, p.sample index = .ok s ∧
      (∃ psi, p.truthVector s = .ok psi ∧ psi.kind = p.kind ∧ p.layout.Holds psi) ∧
      (∀ y : Labeling, y.length = s.graph.order →
        ∃ psi, p.jointVector s y = .ok psi ∧ psi.kind = p.kind ∧ p.layout.Holds psi) ∧
      ∀ weights : List Rat, weights.length = p.totalDims →
        (∀ w ∈ weights.take p.edgeWeights.toNat, 0 ≤ w) →
        ((solver = .exhaustive → s.graph.order ≤ maxSearchedNodes) →
          (∃ c, p.separate s weights = .ok c ∧ c.vector.kind = p.kind ∧ p.layout.Holds c.vector ∧
            0 ≤ c.loss ∧ c.loss ≤ s.graph.order) ∧
          ∃ y, p.predict s weights = .ok y ∧ y.length = s.graph.order) ∧
        (solver = .exhaustive → maxSearchedNodes < s.graph.order →
          p.separate s weights = .error (.oracle (.solver (.tooManyNodes s.graph.order))) ∧
          p.predict s weights = .error (.oracle (.solver (.tooManyNodes s.graph.order)))) := by
  have hready := isReady_of_ofDataset hp
  obtain ⟨-, hsamples, rfl, -, -⟩ := ofDataset_eq_ok hp
  obtain ⟨s, hs, hsample⟩ := exists_sample hindex
  have hvectors : ∀ y : Labeling, y.length = s.graph.order →
      ∃ psi, p.jointVector s y = .ok psi ∧ psi.kind = p.kind ∧ p.layout.Holds psi := by
    intro y hy
    obtain ⟨psi, -, hpsi, hfits⟩ := hready.exists_vector hs hy
    exact ⟨psi, hpsi, hfits⟩
  refine ⟨s, hsample, hvectors s.truth (hready.length_eq s hs), hvectors, ?_⟩
  intro weights hweights hnonneg
  have hcount := (hbuilt s.graph (exists_of_mem_samplesOf (hsamples ▸ hs)).1).count_eq
  obtain ⟨augmented, haugmented⟩ := hready.exists_pottsModel hs hcount hweights hnonneg
  obtain ⟨plain, hplain⟩ := hready.exists_model hs hcount hweights hnonneg
    (show ∀ t ∈ (none : Option Labeling), t.length = s.graph.order from nofun)
  constructor
  · intro hsearch
    exact ⟨hready.exists_separate hs haugmented hsearch, exists_predict hplain hsearch⟩
  · intro hsolver hmany
    constructor
    · rw [separate, SeparationOracle.solve,
        SeparationOracle.findLabeling_eq_error p.oracle haugmented hsolver hmany]
      rfl
    · rw [predict, SeparationOracle.findLabeling_eq_error p.oracle hplain hsolver hmany]
      rfl

/-- Three nodes, one of them without neighbours, with sparse vectors. -/
def sparseGraph : LabeledGraph Rat where
  kind := .sparse
  nodes := [.sparse [(0, 1), (2, -2)], .sparse [(1, 1 / 2), (1, 1 / 2)], .sparse [(0, -1)]]
  edges := ⟨[(2, 0)], by decide, by decide⟩
  edgeVectors := [.sparse [(1, 3)]]
  kind_of_mem_nodes := by simp [FeatureVector.kind]
  kind_of_mem_edgeVectors := by simp [FeatureVector.kind]

/-- A node and no edges. -/
def pointGraph : LabeledGraph Rat where
  kind := .sparse
  nodes := [.sparse [(2, 1)]]
  edges := ⟨[], by decide, EdgeList.distinct_nil⟩
  edgeVectors := []
  kind_of_mem_nodes := by simp [FeatureVector.kind]
  kind_of_mem_edgeVectors := by simp

/-- Two samples, one of them without edges. -/
def sparseDataset : Dataset Rat where
  samples := [some sparseGraph, some pointGraph]
  labels := [.list [.int 1, .int 0, .bool true], .list [.bool true]]

/-- The problem of two samples. -/
def sparseProblem : Problem Rat where
  samples := [⟨sparseGraph, [true, false, true]⟩, ⟨pointGraph, [true]⟩]
  kind := .sparse
  layout := ⟨3, 2⟩
  solver := .exhaustive

lemma ofDataset_sparseDataset : ofDataset sparseDataset .exhaustive = .ok sparseProblem := by
  have hdefects : sparseDataset.defects = .ok [] := by decide +kernel
  rw [ofDataset, hdefects]
  rfl

theorem ofDataset_answers_sparseDataset :
    ∃ s, sparseProblem.sample 1 = .ok s ∧ s.graph.order = 1 ∧
      (∃ psi, sparseProblem.truthVector s = .ok psi ∧ sparseProblem.layout.Holds psi) ∧
      ∃ c y, sparseProblem.separate s [1, 0, -2, 5, 1 / 3] = .ok c ∧
        sparseProblem.layout.Holds c.vector ∧ 0 ≤ c.loss ∧ c.loss ≤ 1 ∧
        sparseProblem.predict s [1, 0, -2, 5, 1 / 3] = .ok y ∧ y.length = 1 := by
  have hbuilt : ∀ g, some g ∈ sparseDataset.samples → g.IsBuilt := by
    intro g hg
    have hg : g = sparseGraph ∨ g = pointGraph := by simpa [sparseDataset] using hg
    rcases hg with rfl | rfl
    · exact ⟨.sparse, sparseGraph.nodes, [(2, 0)], sparseGraph.edgeVectors, rfl⟩
    · exact ⟨.sparse, pointGraph.nodes, [], [], rfl⟩
  have hnonneg : ∀ w ∈ ([1, 0, -2, 5, 1 / 3] : List Rat).take sparseProblem.edgeWeights.toNat,
      0 ≤ w := by
    decide +kernel
  obtain ⟨s, hs, ⟨psi, hpsi, -, hholds⟩, -, hquery⟩ := ofDataset_answers sparseDataset .exhaustive
    sparseProblem ofDataset_sparseDataset hbuilt 1 ⟨by decide, by decide⟩
  -- the sample has a single node
  obtain rfl : s = ⟨pointGraph, [true]⟩ := (Except.ok.inj hs).symm
  obtain ⟨⟨c, hc, -, hvector, hlow, hhigh⟩, y, hy, hlength⟩ :=
    (hquery [1, 0, -2, 5, 1 / 3] rfl hnonneg).1 fun _ => by decide
  exact ⟨_, hs, rfl, ⟨psi, hpsi, hholds⟩, c, y, hc, hvector, hlow, hhigh.trans_eq Nat.cast_one,
    hy, hlength⟩

end Problem

end PottsOracle
