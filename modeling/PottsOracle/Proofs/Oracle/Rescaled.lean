import PottsOracle.Proofs.Oracle.Answers
import PottsOracle.Proofs.Potts.Rescaled

/-!
# Weights under another unit of measurement

If all weights are multiplied by one positive number, so are the scores of all vectors
(`FeatureLayout.blockScore_map_mul`) and with them the whole Potts model of a graph
(`SeparationOracle.IsModel.rescaled`).  No solver notices, so that the same labeling is predicted
(`Problem.predict_map_mul`).

This is about predictions only: with the loss in the potentials a model is not multiplied, because
the loss stays what it is.
-/

namespace PottsOracle

lemma Place.get?_map {A B : Type} (f : A → B) (xs : List A) (place : ℤ) :
    Place.get? (xs.map f) place = (Place.get? xs place).map f := by
  rw [get?, get?, List.length_map]
  split
  · exact List.getElem?_map
  · split
    · exact List.getElem?_map
    · rfl

/-! ## Scores -/

lemma Scalar.dot_map_mul (c : Rat) (ws xs : List Rat) :
    Scalar.dot (ws.map (c * ·)) xs = c * Scalar.dot ws xs := by
  rw [dot_rat, dot_rat]
  induction ws generalizing xs with
  | nil => exact (mul_zero c).symm
  | cons w ws ih =>
    cases xs with
    | nil => exact (mul_zero c).symm
    | cons x xs =>
      simp only [List.map_cons, List.zipWith_cons_cons, List.sum_cons, ih]
      ring

namespace FeatureLayout

variable {layout : FeatureLayout} {block : FeatureBlock} {weights : List Rat}

lemma blockWeights_map_mul (c : Rat) :
    layout.blockWeights block (weights.map (c * ·)) =
      (layout.blockWeights block weights).map (c * ·) := by
  cases block with
  | node => rw [blockWeights, blockWeights, List.length_map, List.map_drop]
  | edge => rw [blockWeights, blockWeights, List.length_map, List.map_take]

lemma weightAt_map_mul (c : Rat) {i : ℤ} {w : Rat} (h : weightAt weights i = .ok w) :
    weightAt (weights.map (c * ·)) i = .ok (c * w) := by
  rw [weightAt] at h ⊢
  rw [Place.get?_map]
  cases hget : Place.get? weights i with
  | none =>
    rw [hget] at h
    cases h
  | some x =>
    rw [hget] at h
    cases h
    rfl

/-- The score of a vector is multiplied as the weights are. -/
lemma blockScore_map_mul (c : Rat) {v : FeatureVector Rat} {s : Rat}
    (h : layout.blockScore block weights v = .ok s) :
    layout.blockScore block (weights.map (c * ·)) v = .ok (c * s) := by
  cases v with
  | dense entries =>
    obtain ⟨hdims, hlength, rfl⟩ := blockScore_dense_eq_ok_iff.1 h
    rw [blockScore_dense_eq_ok_iff, blockWeights_map_mul, List.length_map]
    exact ⟨hdims, hlength, Scalar.dot_map_mul c _ entries⟩
  | sparse terms =>
    obtain ⟨hblock, xs, hxs, rfl⟩ := blockScore_sparse_eq_ok_iff.1 h
    refine blockScore_sparse_eq_ok_iff.2 ⟨hblock, xs.map (c * ·), ?_, ?_⟩
    · refine List.forall₂_map_right_iff.2 (hxs.imp ?_)
      rintro term x ⟨w, hw, rfl⟩
      exact ⟨c * w, weightAt_map_mul c hw, mul_assoc c w term.2⟩
    · rw [List.sum_map_mul_left, List.map_id']

lemma blockValue_map_mul (c : Rat) {v : FeatureVector Rat}
    (h : layout.blockScore block weights v = .ok (layout.blockValue block weights v)) :
    layout.blockValue block (weights.map (c * ·)) v = c * layout.blockValue block weights v :=
  blockValue_eq v _ (blockScore_map_mul c h)

end FeatureLayout

/-! ## Models -/

namespace SeparationOracle

variable {layout : FeatureLayout} {g : LabeledGraph Rat} {weights : List Rat}
  {m m' : PottsModel Rat}

/-- Without the loss, the model of a graph is multiplied as the weights are. -/
lemma IsModel.rescaled {c : Rat} (hc : 0 < c) (h : IsModel layout g weights none m)
    (h' : IsModel layout g (weights.map (c * ·)) none m') : PottsModel.Rescaled c m m' := by
  refine ⟨hc, ?_, ?_⟩
  · rw [h.potentials_eq, h'.potentials_eq, Option.elim_none, Option.elim_none, nodeValues,
      nodeValues, List.map_map]
    refine List.map_congr_left fun v hv => ?_
    exact FeatureLayout.blockValue_map_mul c (h.scored.node v hv)
  · rw [h.couplings_eq_map, h'.couplings_eq_map, List.map_map]
    refine List.map_congr_left fun f hf => ?_
    have hvalue := FeatureLayout.blockValue_map_mul c
      (h.scored.edge f.2 (List.of_mem_zip hf).2)
    rw [hvalue]
    rfl

end SeparationOracle

/-! ## Predictions -/

namespace Problem

/-- Samples of a ready problem have a Potts model without the loss. -/
lemma IsReady.exists_plainModel {p : Problem Rat} {s : Sample Rat} {weights : List Rat}
    (h : p.IsReady) (hs : s ∈ p.samples)
    (hcount : s.graph.edges.pairs.length = s.graph.edgeVectors.length)
    (hweights : weights.length = p.totalDims)
    (hnonneg : ∀ w ∈ weights.take p.edgeWeights.toNat, 0 ≤ w) :
    ∃ m, SeparationOracle.pottsModel p.layout s.graph weights none = .ok m := by
  refine h.exists_model hs hcount hweights hnonneg ?_
  rintro _ ⟨⟩

/-- Multiplying all weights by a positive number changes no prediction for a sample of a valid
dataset.  There is one unless there are too many nodes to search. -/
theorem predict_map_mul (d : Dataset Rat) (solver : Solver) (p : Problem Rat)
    (hp : ofDataset d solver = .ok p) (hbuilt : ∀ g, some g ∈ d.samples → g.IsBuilt)
    (index : ℤ) (hindex : 0 ≤ index ∧ index < p.size) :
    ∃ s, p.sample index = .ok s ∧
      ∀ weights : List Rat, weights.length = p.totalDims →
        (∀ w ∈ weights.take p.edgeWeights.toNat, 0 ≤ w) → ∀ c : Rat, 0 < c →
        p.predict s (weights.map (c * ·)) = p.predict s weights ∧
        ((solver = .exhaustive → s.graph.order ≤ maxSearchedNodes) →
          ∃ y, p.predict s weights = .ok y ∧ y.length = s.graph.order) := by
  have hready := isReady_of_ofDataset hp
  obtain ⟨-, -, rfl, -, -⟩ := ofDataset_eq_ok hp
  obtain ⟨s, hs, hsample, hcount⟩ := exists_countedSample hp hbuilt hindex
  refine ⟨s, hsample, fun weights hweights hnonneg c hc => ?_⟩
  have hscaled : ∀ w ∈ (weights.map (c * ·)).take p.edgeWeights.toNat, 0 ≤ w := by
    intro w hw
    rw [← List.map_take] at hw
    obtain ⟨v, hv, rfl⟩ := List.mem_map.1 hw
    exact mul_nonneg hc.le (hnonneg v hv)
  obtain ⟨m, hm⟩ := hready.exists_plainModel hs hcount hweights hnonneg
  obtain ⟨m', hm'⟩ := hready.exists_plainModel hs hcount (by rwa [List.length_map]) hscaled
  refine ⟨?_, exists_predict hm⟩
  have hmodel := SeparationOracle.isModel_of_pottsModel hm
  have hrescaled := hmodel.rescaled hc (SeparationOracle.isModel_of_pottsModel hm')
  rw [predict, predict, SeparationOracle.findLabeling_eq p.oracle hm,
    SeparationOracle.findLabeling_eq p.oracle hm', hrescaled.solve_eq hmodel.joinsNodes]

theorem predict_map_mul_pairProblem :
    ∃ s y, pairProblem.sample 0 = .ok s ∧ pairProblem.predict s [1 / 2, 1, -1] = .ok y ∧
      y.length = 2 ∧ pairProblem.predict s ([1 / 2, 1, -1].map (1 / 3 * ·)) = .ok y := by
  have hbuilt : ∀ g, some g ∈ pairDataset.samples → g.IsBuilt := by
    intro g hg
    have hg : g = pairGraph := by simpa [pairDataset] using hg
    rw [hg]
    exact isBuilt_pairGraph
  have hnonneg : ∀ w ∈ ([1 / 2, 1, -1] : List Rat).take pairProblem.edgeWeights.toNat, 0 ≤ w := by
    decide +kernel
  obtain ⟨s, hs, hpredict⟩ := predict_map_mul pairDataset .minCut pairProblem
    ofDataset_pairDataset hbuilt 0 ⟨le_rfl, by decide⟩
  obtain ⟨hsame, hexists⟩ := hpredict [1 / 2, 1, -1] rfl hnonneg (1 / 3) (by norm_num)
  obtain ⟨y, hy, hlength⟩ := hexists fun h => by cases h
  obtain rfl : s = ⟨pairGraph, [true, false]⟩ := (Except.ok.inj hs).symm
  exact ⟨_, y, hs, hy, hlength, hsame.trans hy⟩

end Problem

end PottsOracle
