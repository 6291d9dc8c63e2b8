import PottsOracle.Proofs.Oracle.Answers
import PottsOracle.Proofs.Potts.Monotone

/-!
# A loss of zero certifies a prediction

If the most violated constraint of a sample has no loss, its true labels are predicted under the
same weights (`Problem.predict_of_loss_eq_zero`).  The true labels are optimal with the loss in the
potentials, and without it every other labeling loses.

For the search the score decides: true labels are ahead of every other labeling by as much as it
makes mistakes.  For the minimum cut this lead can vanish when capacities are rounded.  But if both
models are scaled alike, then taking out the loss changes no rounded potential to the disadvantage
of the true labels, and so they stay the greatest optimum.
-/

namespace PottsOracle

namespace Labeling

/-- Only the true labels themselves make no mistakes. -/
lemma mistakes_eq_zero_iff {truth y : Labeling} (hlength : truth.length = y.length) :
    mistakes truth y = 0 ↔ y = truth := by
  induction truth generalizing y with
  | nil => simp [List.length_eq_zero_iff.1 hlength.symm, mistakes]
  | cons a truth ih =>
    cases y with
    | nil => cases hlength
    | cons b y =>
      have hrest := ih (y := y) (by simpa using hlength)
      simp only [mistakes, List.zip_cons_cons, List.countP_cons, Nat.add_eq_zero_iff,
        List.cons.injEq] at hrest ⊢
      rw [hrest, and_comm]
      cases a <;> cases b <;> simp

end Labeling

namespace SeparationOracle

variable {layout : FeatureLayout} {g : LabeledGraph Rat} {weights : List Rat} {truth : Labeling}
  {plain augmented : PottsModel Rat}

/-- The potential of a node with the loss in it. -/
lemma getD_augmented {potentials : List Rat} {i : ℕ} (hlength : truth.length = potentials.length)
    (hi : i < potentials.length) :
    (SeparationOracle.augmented potentials truth).getD i 0 =
      potentials.getD i 0 + if truth.getD i false then -1 else 1 := by
  have hi' : i < truth.length := hlength ▸ hi
  simp [SeparationOracle.augmented, List.getD_eq_getElem?_getD, hi, hi']

/-- Without the loss, the true labels are ahead of every other labeling. -/
lemma IsModel.exactScore_add_mistakes_le (hplain : IsModel layout g weights none plain)
    (haugmented : IsModel layout g weights (some truth) augmented)
    (hbest : ∀ z : Labeling, z.length = g.order →
      augmented.exactScore z ≤ augmented.exactScore truth)
    {z : Labeling} (hz : z.length = g.order) :
    plain.exactScore z + Labeling.mistakes truth z ≤ plain.exactScore truth := by
  have htruth : truth.length = g.order := haugmented.truth_length truth rfl
  have hle := hbest z hz
  have hnone : Labeling.mistakes truth truth = 0 := (Labeling.mistakes_eq_zero_iff rfl).2 rfl
  rw [haugmented.exactScore_eq hz, haugmented.exactScore_eq htruth] at hle
  rw [hplain.exactScore_eq hz, hplain.exactScore_eq htruth]
  simp only [Labeling.lossOffset, Option.elim_some, Option.elim_none, hnone] at hle ⊢
  push_cast at hle
  linarith

/-- If the search finds the true labels with the loss in the potentials, it finds them without. -/
lemma exhaustiveLabeling_of_augmented (hplain : IsModel layout g weights none plain)
    (haugmented : IsModel layout g weights (some truth) augmented)
    (hfound : augmented.exhaustiveLabeling = .ok truth) : plain.exhaustiveLabeling = .ok truth := by
  have htruth : truth.length = g.order := haugmented.truth_length truth rfl
  obtain ⟨hn, -, hbest⟩ :=
    PottsModel.exactScore_le_of_exhaustiveLabeling haugmented.joinsNodes hfound
  rw [haugmented.order_eq] at hn hbest
  refine PottsModel.exhaustiveLabeling_of_forall_lt hplain.joinsNodes (hplain.order_eq ▸ hn)
    (htruth.trans hplain.order_eq.symm) ?_
  intro z hz hne
  rw [hplain.order_eq] at hz
  have hle := hplain.exactScore_add_mistakes_le haugmented hbest hz
  have hmistakes : Labeling.mistakes truth z ≠ 0 :=
    fun h => hne ((Labeling.mistakes_eq_zero_iff (htruth.trans hz.symm)).1 h)
  have hpos : (0 : Rat) < Labeling.mistakes truth z := by
    exact_mod_cast Nat.pos_of_ne_zero hmistakes
  linarith

/-- If the minimum cut finds the true labels with the loss in the potentials, it finds them without,
provided that both models are scaled alike. -/
lemma minCutLabeling_of_augmented (hplain : IsModel layout g weights none plain)
    (haugmented : IsModel layout g weights (some truth) augmented)
    (hcapacity : plain.maxCapacity = augmented.maxCapacity)
    (hfound : augmented.minCutLabeling = .ok truth) : plain.minCutLabeling = .ok truth := by
  have htruth : truth.length = g.order := haugmented.truth_length truth rfl
  have halike : PottsModel.ScaledAlike augmented plain :=
    ⟨hplain.order_eq.trans haugmented.order_eq.symm,
      hplain.couplings_eq.trans haugmented.couplings_eq.symm, hcapacity⟩
  refine halike.minCutLabeling_of_favoured haugmented.joinsNodes hfound fun i hi => ?_
  have hnode : i < plain.potentials.length := by
    have horder : plain.potentials.length = g.order := hplain.order_eq
    rw [horder, ← haugmented.order_eq]
    exact hi
  have hpotentials : augmented.potentials =
      SeparationOracle.augmented plain.potentials truth := by
    rw [haugmented.potentials_eq, hplain.potentials_eq, Option.elim_some, Option.elim_none]
  have hlength : truth.length = plain.potentials.length := htruth.trans hplain.order_eq.symm
  rw [hpotentials, getD_augmented hlength hnode]
  cases truth.getD i false <;> simp

/-- If a solver finds the true labels with the loss in the potentials, it finds them without. -/
lemma solve_of_augmented {solver : Solver} (hplain : IsModel layout g weights none plain)
    (haugmented : IsModel layout g weights (some truth) augmented)
    (hcapacity : solver = .minCut → plain.maxCapacity = augmented.maxCapacity)
    (hfound : augmented.solve solver = .ok truth) : plain.solve solver = .ok truth := by
  cases solver with
  | minCut => exact minCutLabeling_of_augmented hplain haugmented (hcapacity rfl) hfound
  | exhaustive => exact exhaustiveLabeling_of_augmented hplain haugmented hfound

/-- A graph that has a Potts model with true labels has one without. -/
lemma IsModel.exists_plain (h : IsModel layout g weights (some truth) augmented) :
    ∃ m, pottsModel layout g weights none = .ok m :=
  exists_pottsModel h.scored h.count_eq (fun _ => h.edge_nonneg) nofun

/-- A constraint without loss is that of the true labels. -/
lemma findLabeling_of_solve {oracle : SeparationOracle} {c : Constraint Rat}
    (h : oracle.solve g truth weights = .ok c) (hloss : c.loss = 0) :
    oracle.findLabeling g weights (some truth) = .ok truth := by
  obtain ⟨y, hfound, hmistakes, -⟩ := exists_of_solve oracle h
  obtain ⟨m, hm, hsolve⟩ := bind_eq_ok_iff.1 hfound
  have hmodel := isModel_of_pottsModel hm
  have hlength : truth.length = y.length := by
    rw [hmodel.truth_length truth rfl, ← hmodel.order_eq]
    exact (PottsModel.length_of_solve (mapError_eq_ok_iff.1 hsolve)).symm
  rw [Labeling.loss_eq hlength, hloss, Except.ok.injEq, Nat.cast_eq_zero,
    Labeling.mistakes_eq_zero_iff hlength] at hmistakes
  rw [hfound, hmistakes]

end SeparationOracle

namespace Problem

/-- If the most violated constraint of a sample has no loss, then its true labels are predicted.
For the minimum cut both models of the sample must have the same largest capacity; how coarse their
units are does not matter. -/
theorem predict_of_loss_eq_zero (d : Dataset Rat) (solver : Solver) (p : Problem Rat)
    (hp : ofDataset d solver = .ok p) (index : ℤ) (hindex : 0 ≤ index ∧ index < p.size) :
    ∃ s, p.sample index = .ok s ∧
      ∀ (weights : List Rat) (c : Constraint Rat), p.separate s weights = .ok c → c.loss = 0 →
        (solver = .minCut → ∀ plain augmented,
          SeparationOracle.pottsModel p.layout s.graph weights none = .ok plain →
          SeparationOracle.pottsModel p.layout s.graph weights (some s.truth) = .ok augmented →
          plain.maxCapacity = augmented.maxCapacity) →
        p.predict s weights = .ok s.truth := by
  obtain ⟨-, -, rfl, -, -⟩ := ofDataset_eq_ok hp
  obtain ⟨s, -, hs⟩ := exists_sample hindex
  refine ⟨s, hs, ?_⟩
  intro weights c hc hloss hcapacity
  have hfound := SeparationOracle.findLabeling_of_solve (mapError_eq_ok_iff.1 hc) hloss
  obtain ⟨augmented, haugmented, hsolve⟩ := bind_eq_ok_iff.1 hfound
  have hmodel := SeparationOracle.isModel_of_pottsModel haugmented
  obtain ⟨plain, hplain⟩ := hmodel.exists_plain
  have hpredicted := SeparationOracle.solve_of_augmented
    (SeparationOracle.isModel_of_pottsModel hplain) hmodel
    (fun hsolver => hcapacity hsolver plain augmented hplain haugmented)
    (mapError_eq_ok_iff.1 hsolve)
  rw [predict, mapError_eq_ok_iff, SeparationOracle.findLabeling_eq p.oracle hplain,
    mapError_eq_ok_iff]
  exact hpredicted

/-- Two true nodes and a heavy edge between them. -/
def agreeingDataset : Dataset Rat := ⟨[some pairGraph], [.list [.bool true, .int 1]]⟩

/-- The problem of one sample. -/
def agreeingProblem : Problem Rat := ⟨[⟨pairGraph, [true, true]⟩], .dense, ⟨2, 1⟩, .minCut⟩

theorem predict_of_loss_eq_zero_agreeingProblem :
    ∃ s c, agreeingProblem.sample 0 = .ok s ∧ agreeingProblem.separate s [2, -2, 2] = .ok c ∧
      c.loss = 0 ∧ agreeingProblem.predict s [2, -2, 2] = .ok s.truth := by
  have hvalid : ofDataset agreeingDataset .minCut = .ok agreeingProblem := by
    have hdefects : agreeingDataset.defects = .ok [] := by decide +kernel
    rw [ofDataset, hdefects]
    rfl
  obtain ⟨s, hs, hcertified⟩ := predict_of_loss_eq_zero agreeingDataset .minCut agreeingProblem
    hvalid 0 ⟨le_rfl, by decide⟩
  obtain rfl : s = ⟨pairGraph, [true, true]⟩ := (Except.ok.inj hs).symm
  have hseparate : agreeingProblem.separate ⟨pairGraph, [true, true]⟩ [2, -2, 2] =
      .ok ⟨0, .dense [0, 0, 2]⟩ := by decide +kernel
  refine ⟨_, _, hs, hseparate, rfl, hcertified [2, -2, 2] _ hseparate rfl ?_⟩
  -- the edge has the largest capacity of both models
  intro _ plain augmented hplain haugmented
  have hplain' : (SeparationOracle.pottsModel agreeingProblem.layout pairGraph
      [2, -2, 2] none).map (·.maxCapacity) = .ok 6 := by decide +kernel
  have haugmented' : (SeparationOracle.pottsModel agreeingProblem.layout pairGraph
      [2, -2, 2] (some [true, true])).map (·.maxCapacity) = .ok 6 := by decide +kernel
  rw [hplain] at hplain'
  rw [haugmented] at haugmented'
  exact (Except.ok.inj hplain').trans (Except.ok.inj haugmented').symm

end Problem

end PottsOracle
