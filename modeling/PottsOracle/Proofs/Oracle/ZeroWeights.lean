import PottsOracle.Proofs.Oracle.ZeroLoss

/-!
# Weights that are all zero

Under weights that are all zero every score is zero, so the loss alone decides, and the labeling that
is wrong at every node is ahead of all others (`SeparationOracle.findLabeling_of_zeros`).  So its
constraint is the most violated one of its sample (`Problem.separate_replicate_zero`).

The search finds a labeling that is ahead of all others.  So does the minimum cut if it need not
round, and here it need not: potentials are one or minus one and no edge has a weight.
-/

namespace PottsOracle

/-! ## Wrong labels everywhere -/

namespace Labeling

/-- All labels turned around. -/
def flipped (y : Labeling) : Labeling := y.map (!·)

@[simp]
lemma length_flipped (y : Labeling) : y.flipped.length = y.length := List.length_map _

@[simp]
lemma flipped_flipped (y : Labeling) : y.flipped.flipped = y := by
  simp [flipped, Function.comp_def]

/-- Every label is wrong in a labeling or in the one that is turned around. -/
lemma mistakes_add_mistakes_flipped {truth y : Labeling} (hlength : truth.length = y.length) :
    mistakes truth y + mistakes truth y.flipped = truth.length := by
  induction truth generalizing y with
  | nil => rfl
  | cons a truth ih =>
    cases y with
    | nil => cases hlength
    | cons b y =>
      have hrest := ih (y := y) (by simpa using hlength)
      simp only [mistakes, flipped, List.map_cons, List.zip_cons_cons, List.countP_cons,
        List.length_cons] at hrest ⊢
      cases a <;> cases b <;> simp <;> omega

lemma mistakes_flipped (truth : Labeling) : mistakes truth truth.flipped = truth.length := by
  have hnone : mistakes truth truth = 0 := (mistakes_eq_zero_iff rfl).2 rfl
  have hsum := mistakes_add_mistakes_flipped (rfl : truth.length = truth.length)
  omega

/-- A labeling is wrong everywhere only if all labels are turned around. -/
lemma mistakes_lt_of_ne {truth y : Labeling} (hlength : truth.length = y.length)
    (hne : y ≠ truth.flipped) : mistakes truth y < truth.length := by
  have hflipped : mistakes truth y.flipped ≠ 0 := by
    rw [ne_eq, mistakes_eq_zero_iff (by rw [length_flipped, hlength])]
    rintro rfl
    exact hne (flipped_flipped y).symm
  have hsum := mistakes_add_mistakes_flipped hlength
  omega

end Labeling

namespace PottsModel

variable {m : PottsModel Rat}

/-! ## A labeling ahead of all others -/

/-- A labeling that is ahead of all others is found by the search, and by the minimum cut if nothing is
rounded. -/
lemma solve_of_forall_lt (hm : m.JoinsNodes) (hsimple : m.IsSimple) (hwhole : m.IsWhole)
    {solver : Solver} (hsearch : solver = .exhaustive → m.order ≤ maxSearchedNodes) {y : Labeling}
    (hy : y.length = m.order)
    (hlt : ∀ z : Labeling, z.length = m.order → z ≠ y → m.exactScore z < m.exactScore y) :
    m.solve solver = .ok y := by
  cases solver with
  | exhaustive => exact exhaustiveLabeling_of_forall_lt hm (hsearch rfl) hy hlt
  | minCut =>
    obtain ⟨found, hfound, hgreatest⟩ := minCutLabeling_eq hm
    have hle := (quantisedScore_le_iff hm hsimple hwhole).1 (hgreatest.le y hy)
    by_contra hne
    have hother : found ≠ y := fun h => hne (h ▸ hfound)
    exact absurd hle (not_le.2 (hlt found hgreatest.length_eq hother))

/-- Potentials of size one and no weights need no rounding. -/
lemma isWhole_of_abs_eq_one (hpotentials : ∀ u ∈ m.potentials, |u| = 1)
    (hweights : ∀ c ∈ m.couplings, c.weight = 0) : m.IsWhole := by
  refine ⟨?_, fun c hc hne => absurd (hweights c hc) hne⟩
  intro u hu _
  -- the largest capacity is one, so it is scaled to a power of two
  have hcapacity : m.maxCapacity = 1 := by
    refine m.isGreatest_maxCapacity.unique ⟨Or.inr (Or.inl ⟨u, hu, hpotentials u hu⟩), ?_⟩
    rintro x (rfl | ⟨v, hv, rfl⟩ | ⟨c, hc, rfl⟩)
    · exact zero_le_one
    · exact (hpotentials v hv).le
    · rw [hweights c hc]
      exact zero_le_one
  exact ⟨2 ^ 40, by rw [hpotentials u hu, scale_eq, hcapacity]; norm_num⟩

end PottsModel

/-! ## Scores -/

namespace FeatureLayout

variable {layout : FeatureLayout} {weights : List Rat}

lemma mem_of_weightAt {i : ℤ} {w : Rat} (h : weightAt weights i = .ok w) : w ∈ weights := by
  have hget : Place.get? weights i = some w := by
    rw [weightAt] at h
    split at h
    · rename_i hget
      cases h
      exact hget
    · cases h
  rw [Place.get?] at hget
  split_ifs at hget
  · exact List.mem_of_getElem? hget
  · exact List.mem_of_getElem? hget

/-- The weights of a block are weights. -/
lemma mem_of_mem_blockWeights {block : FeatureBlock} {w : Rat}
    (h : w ∈ layout.blockWeights block weights) : w ∈ weights := by
  cases block with
  | node => exact List.mem_of_mem_drop h
  | edge => exact List.mem_of_mem_take h

/-- No vector has another score than zero. -/
lemma blockValue_of_zeros (hweights : ∀ w ∈ weights, w = 0) (block : FeatureBlock) :
    layout.blockValue block weights = fun _ => 0 := by
  ext v
  cases hscore : layout.blockScore block weights v with
  | error e =>
    rw [blockValue, hscore]
    rfl
  | ok s =>
    rw [blockValue_eq v s hscore]
    cases v with
    | dense entries =>
      obtain ⟨-, -, rfl⟩ := blockScore_dense_eq_ok_iff.1 hscore
      have hblock : layout.blockWeights block weights =
          List.replicate (layout.blockWeights block weights).length 0 :=
        List.eq_replicate_of_mem fun w hw => hweights w (mem_of_mem_blockWeights hw)
      rw [hblock, Scalar.dot_replicate_zero]
    | sparse terms =>
      obtain ⟨-, xs, hxs, rfl⟩ := blockScore_sparse_eq_ok_iff.1 hscore
      refine List.sum_eq_zero (forall_mem_of_forall₂ hxs ?_)
      rintro term - x ⟨w, hw, rfl⟩
      rw [hweights w (mem_of_weightAt hw), zero_mul]

end FeatureLayout

namespace SeparationOracle

variable {layout : FeatureLayout} {g : LabeledGraph Rat} {weights : List Rat} {truth : Labeling}
  {m : PottsModel Rat}

lemma jointValue_of_zeros (hweights : ∀ w ∈ weights, w = 0) (y : Labeling) :
    jointValue layout g weights y = 0 := by
  simp [jointValue, FeatureLayout.blockValue_of_zeros hweights]

/-- The model of true labels alone need not be rounded. -/
lemma IsModel.isWhole_of_zeros (h : IsModel layout g weights (some truth) m)
    (hweights : ∀ w ∈ weights, w = 0) : m.IsWhole := by
  refine PottsModel.isWhole_of_abs_eq_one ?_ ?_
  · -- what is left of a potential is the loss, which adds one or takes one away
    rw [h.potentials_eq, Option.elim_some, nodeValues, FeatureLayout.blockValue_of_zeros hweights]
    intro u hu
    obtain ⟨i, hi, rfl⟩ := List.mem_iff_getElem.1 hu
    simp only [augmented, List.getElem_zipWith, List.getElem_map, zero_add]
    split <;> simp
  · rw [h.couplings_eq_map, FeatureLayout.blockValue_of_zeros hweights]
    intro c hc
    obtain ⟨f, -, rfl⟩ := List.mem_map.1 hc
    rfl

/-- The loss alone decides which labeling is ahead. -/
lemma IsModel.exactScore_lt_of_zeros (h : IsModel layout g weights (some truth) m)
    (hweights : ∀ w ∈ weights, w = 0) {z : Labeling} (hz : z.length = m.order)
    (hne : z ≠ truth.flipped) : m.exactScore z < m.exactScore truth.flipped := by
  have htruth : truth.length = g.order := h.truth_length truth rfl
  have horder := h.order_eq
  rw [h.exactScore_eq (hz.trans horder), h.exactScore_eq (by rw [Labeling.length_flipped, htruth]),
    jointValue_of_zeros hweights, jointValue_of_zeros hweights]
  simp only [Labeling.lossOffset, Option.elim_some, Labeling.mistakes_flipped]
  have hlt := Labeling.mistakes_lt_of_ne (htruth.trans (hz.trans horder).symm) hne
  have hlt' : (Labeling.mistakes truth z : Rat) < truth.length := by exact_mod_cast hlt
  linarith

/-- Under weights that are all zero the labels are turned around, unless there are too many nodes to
search. -/
lemma findLabeling_of_zeros (oracle : SeparationOracle)
    (hm : pottsModel oracle.layout g weights (some truth) = .ok m)
    (hweights : ∀ w ∈ weights, w = 0)
    (hsearch : oracle.solver = .exhaustive → g.order ≤ maxSearchedNodes) :
    oracle.findLabeling g weights (some truth) = .ok truth.flipped := by
  have hmodel := isModel_of_pottsModel hm
  have horder := hmodel.order_eq
  have htruth : truth.length = g.order := hmodel.truth_length truth rfl
  rw [findLabeling_eq oracle hm, mapError_eq_ok_iff]
  refine PottsModel.solve_of_forall_lt hmodel.joinsNodes hmodel.isSimple
    (hmodel.isWhole_of_zeros hweights) (horder ▸ hsearch) ?_ ?_
  · rw [Labeling.length_flipped, htruth, horder]
  · exact fun z hz hne => hmodel.exactScore_lt_of_zeros hweights hz hne

end SeparationOracle

namespace Problem

variable {p : Problem Rat} {s : Sample Rat} {weights : List Rat}

/-- Under weights that are all zero the most violated constraint of a sample is that of its labels turned
around, and its loss is the number of nodes. -/
lemma IsReady.separate_of_zeros (h : p.IsReady) (hs : s ∈ p.samples)
    (hcount : s.graph.edges.pairs.length = s.graph.edgeVectors.length)
    (hlength : weights.length = p.totalDims) (hweights : ∀ w ∈ weights, w = 0)
    (hsearch : p.solver = .exhaustive → s.graph.order ≤ maxSearchedNodes) :
    ∃ c, p.separate s weights = .ok c ∧ c.loss = s.graph.order ∧
      p.jointVector s s.truth.flipped = .ok c.vector := by
  have htruth := h.length_eq s hs
  have hflipped : s.truth.flipped.length = s.graph.order := by
    rw [Labeling.length_flipped, htruth]
  obtain ⟨m, hm⟩ := h.exists_pottsModel hs hcount hlength
    fun w hw => (hweights w (List.mem_of_mem_take hw)).ge
  obtain ⟨psi, hpsi, hvector, -, -⟩ := h.exists_vector hs hflipped
  have hfound := SeparationOracle.findLabeling_of_zeros p.oracle hm hweights hsearch
  refine ⟨⟨s.graph.order, psi⟩, ?_, rfl, hvector⟩
  rw [separate, mapError_eq_ok_iff, SeparationOracle.solve_eq p.oracle hfound
    (htruth.trans hflipped.symm) hpsi, Labeling.mistakes_flipped, htruth]

/-- Under weights that are all zero the most violated constraint of a sample of a valid dataset is
that of its labels turned around: the loss is the number of nodes, and the joint feature vector is
the one that is built for these labels. -/
theorem separate_replicate_zero (d : Dataset Rat) (solver : Solver) (p : Problem Rat)
    (hp : ofDataset d solver = .ok p) (hbuilt : ∀ g, some g ∈ d.samples → g.IsBuilt)
    (index : ℤ) (hindex : 0 ≤ index ∧ index < p.size) :
    ∃ s, p.sample index = .ok s ∧
      ((solver = .exhaustive → s.graph.order ≤ maxSearchedNodes) →
        ∃ c, p.separate s (List.replicate p.totalDims.toNat 0) = .ok c ∧ c.loss = s.graph.order ∧
          p.jointVector s (s.truth.map (!·)) = .ok c.vector) := by
  have hready := isReady_of_ofDataset hp
  obtain ⟨-, -, rfl, -, -⟩ := ofDataset_eq_ok hp
  obtain ⟨s, hs, hsample, hcount⟩ := exists_countedSample hp hbuilt hindex
  refine ⟨s, hsample, fun hsearch => ?_⟩
  have hlength : ((List.replicate p.totalDims.toNat (0 : Rat)).length : ℤ) = p.totalDims := by
    rw [List.length_replicate]
    exact Int.toNat_of_nonneg (FeatureLayout.total_nonneg hready.dims_nonneg)
  exact hready.separate_of_zeros hs hcount hlength (fun w hw => List.eq_of_mem_replicate hw) hsearch

theorem separate_replicate_zero_sparseProblem :
    ∃ s c, sparseProblem.sample 0 = .ok s ∧ s.truth = [true, false, true] ∧
      sparseProblem.separate s [0, 0, 0, 0, 0] = .ok c ∧ c.loss = 3 ∧
      sparseProblem.jointVector s [false, true, false] = .ok c.vector := by
  have hbuilt : ∀ g, some g ∈ sparseDataset.samples → g.IsBuilt := by
    intro g hg
    have hg : g = sparseGraph ∨ g = pointGraph := by simpa [sparseDataset] using hg
    rcases hg with rfl | rfl
    · exact ⟨.sparse, sparseGraph.nodes, [(2, 0)], sparseGraph.edgeVectors, rfl⟩
    · exact ⟨.sparse, pointGraph.nodes, [], [], rfl⟩
  obtain ⟨s, hs, hanswer⟩ := separate_replicate_zero sparseDataset .exhaustive sparseProblem
    ofDataset_sparseDataset hbuilt 0 ⟨le_rfl, by decide⟩
  obtain rfl : s = ⟨sparseGraph, [true, false, true]⟩ := (Except.ok.inj hs).symm
  obtain ⟨c, hc, hloss, hvector⟩ := hanswer fun _ => by decide
  exact ⟨_, c, hs, rfl, hc, hloss.trans (by norm_num [sparseGraph, LabeledGraph.order]), hvector⟩

end Problem

end PottsOracle
