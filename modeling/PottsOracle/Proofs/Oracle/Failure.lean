import PottsOracle.Proofs.Feature.Misfit
import PottsOracle.Proofs.Oracle.Answers

/-!
# What makes building and solving fail

The joint feature vector of a graph under a labeling is made of the vectors of its true nodes and
its cut edges alone.  It cannot be built if there is not one label for every node, or if one of
these vectors does not fit its block, and in no other case (`LabeledGraph.jointVector_spec`); what
the other vectors are does not matter.

A Potts model, on the other hand, is made of the scores of all vectors.  So if there is one, all
vectors fit, and once a solver has found a labeling both its loss and its joint feature vector are
there (`SeparationOracle.exists_constraint`).
-/

namespace PottsOracle

variable {K : Type} [Scalar K] {layout : FeatureLayout} {g : LabeledGraph K} {y : Labeling}

namespace LabeledGraph

open FeatureLayout

omit [Scalar K] in
/-- A contribution that does not fit is the vector of a true node or of a cut edge. -/
lemma exists_misfit_iff :
    (∃ c ∈ g.contributions y, ¬ layout.Fits c.1 c.2) ↔
      (∃ (i : ℕ) (v : FeatureVector K), g.nodes[i]? = some v ∧ y[i]? = some true ∧
        ¬ layout.Fits .node v) ∨
      ∃ (k : ℕ) (e : ℕ × ℕ) (v : FeatureVector K), g.edges.pairs[k]? = some e ∧
        g.edgeVectors[k]? = some v ∧ Cut y e ∧ ¬ layout.Fits .edge v := by
  constructor
  · rintro ⟨c, hc, hmisfit⟩
    rcases List.mem_append.1 hc with hc | hc
    · obtain ⟨v, hv, rfl⟩ := List.mem_map.1 hc
      obtain ⟨i, hnode, hlabel⟩ := mem_trueVectors_iff.1 hv
      exact Or.inl ⟨i, v, hnode, hlabel, hmisfit⟩
    · obtain ⟨v, hv, rfl⟩ := List.mem_map.1 hc
      obtain ⟨k, e, hpair, hedge, hcut⟩ := mem_cutVectors_iff.1 hv
      exact Or.inr ⟨k, e, v, hpair, hedge, hcut, hmisfit⟩
  · rintro (⟨i, v, hnode, hlabel, hmisfit⟩ | ⟨k, e, v, hpair, hedge, hcut, hmisfit⟩)
    · have hv : v ∈ g.trueVectors y := mem_trueVectors_iff.2 ⟨i, hnode, hlabel⟩
      exact ⟨(.node, v), List.mem_append_left _ (List.mem_map_of_mem hv), hmisfit⟩
    · have hv : v ∈ g.cutVectors y := mem_cutVectors_iff.2 ⟨k, e, hpair, hedge, hcut⟩
      exact ⟨(.edge, v), List.mem_append_right _ (List.mem_map_of_mem hv), hmisfit⟩

/-- With a label for every node, the first contribution that does not fit is what fails. -/
lemma jointVector_spec (hdims : ∀ block, 0 ≤ layout.dims block) (hy : y.length = g.order) :
    match layout.firstMisfit? (g.contributions y) with
    | some e => g.jointVector g.kind layout y = .error (.layout e)
    | none => ∃ psi, g.jointVector g.kind layout y = .ok psi ∧ psi.kind = g.kind ∧
        layout.Holds psi := by
  have hkind : ∀ c ∈ g.contributions y,
      c.2.kind = (layout.zeros g.kind : FeatureVector K).kind := by
    intro c hc
    rw [kind_zeros]
    exact kind_of_mem_vectors (mem_vectors_of_mem_contributions hc)
  have hrun := contributeAll_spec hdims (holds_zeros (total_nonneg hdims) g.kind) hkind
  rw [jointVector, if_pos hy]
  rwa [kind_zeros] at hrun

/-- If every contribution fits, there is a joint feature vector. -/
lemma exists_jointVector_of_fits (hdims : ∀ block, 0 ≤ layout.dims block)
    (hfits : ∀ block, ∀ v ∈ g.vectors block, layout.Fits block v) (hy : y.length = g.order) :
    ∃ psi, g.jointVector g.kind layout y = .ok psi := by
  have hnone : layout.firstMisfit? (g.contributions y) = none :=
    firstMisfit?_eq_none_iff.2 fun c hc => hfits c.1 c.2 (mem_vectors_of_mem_contributions hc)
  have hspec := jointVector_spec hdims hy
  rw [hnone] at hspec
  obtain ⟨psi, hpsi, -, -⟩ := hspec
  exact ⟨psi, hpsi⟩

/-- Whatever the labels, there is a joint feature vector, or else a reason that is about the layout;
and there is a reason if and only if some contribution does not fit or a label is missing or left
over. -/
lemma jointVector_cases (hdims : ∀ block, 0 ≤ layout.dims block) (g : LabeledGraph K)
    (y : Labeling) :
    (∃ cause, g.jointVector g.kind layout y = .error (.layout cause)) ∧
        (y.length ≠ g.order ∨ ∃ c ∈ g.contributions y, ¬ layout.Fits c.1 c.2) ∨
      (∃ psi, g.jointVector g.kind layout y = .ok psi) ∧
        y.length = g.order ∧ ∀ c ∈ g.contributions y, layout.Fits c.1 c.2 := by
  by_cases hy : y.length = g.order
  · have hspec := jointVector_spec hdims hy
    cases hfirst : layout.firstMisfit? (g.contributions y) with
    | some e =>
      rw [hfirst] at hspec
      refine Or.inl ⟨⟨e, hspec⟩, Or.inr ?_⟩
      by_contra hnot
      push Not at hnot
      rw [firstMisfit?_eq_none_iff.2 hnot] at hfirst
      cases hfirst
    | none =>
      rw [hfirst] at hspec
      obtain ⟨psi, hpsi, -, -⟩ := hspec
      exact Or.inr ⟨⟨psi, hpsi⟩, hy, firstMisfit?_eq_none_iff.1 hfirst⟩
  · refine Or.inl ⟨⟨.labelCount y.length g.order, ?_⟩, Or.inl hy⟩
    rw [jointVector, if_neg hy]

end LabeledGraph

namespace SeparationOracle

variable {weights : List K}

/-! ## What a Potts model is made of -/

/-- Only vectors that fit have scores, and there is one for each. -/
lemma fits_of_scores {block : FeatureBlock} {vectors : List (FeatureVector K)} {xs : List K}
    (h : scores layout block weights vectors = .ok xs) :
    xs.length = vectors.length ∧ ∀ v ∈ vectors, layout.Fits block v := by
  have hscores := mapM_eq_ok_iff.1 (mapError_eq_ok_iff.1 h)
  have hfits : List.Forall₂ (fun v x => layout.Fits block v ∧
      layout.blockScore block weights v = .ok x) vectors xs :=
    hscores.imp fun v x hx => ⟨FeatureLayout.fits_of_blockScore hx, hx⟩
  exact ⟨hscores.length_eq.symm, ((List.forall₂_and_left _ _).1 hfits).1⟩

/-- If there is a Potts model, all vectors fit, there are labels for all nodes, and as many
potentials. -/
lemma fits_of_pottsModel {truth : Option Labeling} {m : PottsModel K}
    (h : pottsModel layout g weights truth = .ok m) :
    (∀ block, ∀ v ∈ g.vectors block, layout.Fits block v) ∧
      (∀ t ∈ truth, t.length = g.order) ∧ m.order = g.order := by
  obtain ⟨nodes, edges, hnodes, htruth, hedges, hlists⟩ := pottsModel_eq_ok_iff.1 h
  obtain ⟨-, -, hnodes⟩ := bind_eq_ok_iff.1 hnodes
  obtain ⟨hlength, hnodesFit⟩ := fits_of_scores hnodes
  obtain ⟨-, hedgesFit⟩ := fits_of_scores hedges
  refine ⟨?_, htruth, ?_⟩
  · intro block
    cases block with
    | node => exact hnodesFit
    | edge => exact hedgesFit
  · rw [PottsModel.order, (ofLists_eq_ok hlists).2.1]
    cases truth with
    | none => exact hlength
    | some t =>
      have ht : t.length = g.nodes.length := htruth t rfl
      rw [Option.elim_some, augmented, List.length_zipWith, hlength, ht, min_self]
      rfl

/-- Once a labeling has been found, it has a loss and a joint feature vector. -/
lemma exists_constraint (oracle : SeparationOracle) (hdims : ∀ block, 0 ≤ oracle.layout.dims block)
    {truth : Labeling} (h : oracle.findLabeling g weights (some truth) = .ok y) :
    ∃ c, constraint oracle.layout g truth y = .ok c ∧ Labeling.loss truth y = .ok c.loss ∧
      g.jointVector g.kind oracle.layout y = .ok c.vector := by
  obtain ⟨m, hm, hsolve⟩ := bind_eq_ok_iff.1 h
  obtain ⟨hfits, htruth, horder⟩ := fits_of_pottsModel hm
  have hy : y.length = g.order :=
    (PottsModel.length_of_solve (mapError_eq_ok_iff.1 hsolve)).trans horder
  have hlength : truth.length = y.length := (htruth truth rfl).trans hy.symm
  have hloss : (Labeling.loss truth y : Except InputError K) =
      .ok (Scalar.ofNat (Labeling.mistakes truth y)) := by
    rw [Labeling.loss, Labeling.hamming_eq hlength]
    rfl
  obtain ⟨psi, hpsi⟩ := LabeledGraph.exists_jointVector_of_fits hdims hfits hy
  refine ⟨⟨_, psi⟩, ?_, hloss, hpsi⟩
  rw [constraint, hloss, hpsi]
  rfl

/-- A labeling that is found for true labels as they are given is found for the labels that they
denote. -/
lemma exists_read_of_findLabelingOfGiven {oracle : SeparationOracle} {truth : Value}
    (h : oracle.findLabelingOfGiven g weights (some truth) = .ok y) :
    ∃ t, Labeling.read truth = .ok t ∧ oracle.findLabeling g weights (some t) = .ok y := by
  obtain ⟨read, hread, hfound⟩ := bind_eq_ok_iff.1 h
  obtain ⟨-, -, hread⟩ := bind_eq_ok_iff.1 hread
  obtain ⟨t, ht, hsome⟩ := bind_eq_ok_iff.1 hread
  cases hsome
  exact ⟨t, mapError_eq_ok_iff.1 ht, hfound⟩

/-! ## When building and solving fail -/

/-- Building the joint feature vector of a graph under a labeling fails if and only if there is not
a label for every node, the vector of a true node does not fit, or the vector of an edge between
different labels does not; it never fails in another way.  And if a labeling is found for given true
labels, the most violated constraint is found as well, whichever solver is used: it is the loss and
the joint feature vector of that labeling. -/
theorem jointVector_fails_iff_and_exists_solveGiven (layout : FeatureLayout)
    (hdims : ∀ block, 0 ≤ layout.dims block) (g : LabeledGraph K) :
    (∀ y : Labeling,
      ((∃ cause, g.jointVector g.kind layout y = .error (.layout cause)) ↔
        y.length ≠ g.order ∨
        (∃ (i : ℕ) (v : FeatureVector K), g.nodes[i]? = some v ∧ y[i]? = some true ∧
          ¬ layout.Fits .node v) ∨
        ∃ (k : ℕ) (e : ℕ × ℕ) (v : FeatureVector K), g.edges.pairs[k]? = some e ∧
          g.edgeVectors[k]? = some v ∧ LabeledGraph.Cut y e ∧ ¬ layout.Fits .edge v) ∧
      ((∃ psi, g.jointVector g.kind layout y = .ok psi) ∨
        ∃ cause, g.jointVector g.kind layout y = .error (.layout cause))) ∧
    ∀ (solver : Solver) (truth : Value) (weights : List K) (y : Labeling),
      findLabelingOfGiven ⟨layout, solver⟩ g weights (some truth) = .ok y →
      ∃ (t : Labeling) (c : Constraint K), Labeling.read truth = .ok t ∧
        solveGiven ⟨layout, solver⟩ g (some truth) weights = .ok c ∧
        Labeling.loss t y = .ok c.loss ∧ g.jointVector g.kind layout y = .ok c.vector := by
  constructor
  · intro y
    rw [← LabeledGraph.exists_misfit_iff]
    rcases LabeledGraph.jointVector_cases hdims g y with
      ⟨hfails, hreason⟩ | ⟨⟨psi, hpsi⟩, hlength, hfits⟩
    · exact ⟨iff_of_true hfails hreason, Or.inr hfails⟩
    · refine ⟨iff_of_false ?_ ?_, Or.inl ⟨psi, hpsi⟩⟩
      · rintro ⟨cause, hcause⟩
        rw [hpsi] at hcause
        cases hcause
      · rintro (hne | ⟨c, hc, hmisfit⟩)
        · exact hne hlength
        · exact hmisfit (hfits c hc)
  · intro solver truth weights y hfound
    obtain ⟨t, hread, hlabeling⟩ := exists_read_of_findLabelingOfGiven hfound
    obtain ⟨c, hconstraint, hloss, hvector⟩ := exists_constraint ⟨layout, solver⟩ hdims hlabeling
    refine ⟨t, c, hread, ?_, hloss, hvector⟩
    rw [solveGiven, hfound, Option.getD_some, hread]
    exact hconstraint

/-- The first edge has an index outside the edge block.  That only matters if its ends have
different labels, or if the edge is scored. -/
theorem jointVector_fails_iff_loopGraph :
    (∀ block, 0 ≤ FeatureLayout.dims ⟨1, 1⟩ block) ∧
      loopGraph.jointVector .sparse ⟨1, 1⟩ [true, true] = .ok (.sparse [(1, 1), (1, 2)]) ∧
      (∃ cause, loopGraph.jointVector .sparse ⟨1, 1⟩ [true, false] = .error (.layout cause)) ∧
      ∃ c, solveGiven ⟨⟨1, 2⟩, .exhaustive⟩ loopGraph (some (.list [.int 1, .int 0]))
        [1, 2, -3] = .ok c ∧ c.loss = 1 := by
  have hdims : ∀ block, 0 ≤ FeatureLayout.dims ⟨1, 1⟩ block :=
    FeatureLayout.forall_dims_nonneg_iff.2 (by decide)
  have hdims' : ∀ block, 0 ≤ FeatureLayout.dims ⟨1, 2⟩ block :=
    FeatureLayout.forall_dims_nonneg_iff.2 (by decide)
  obtain ⟨hbuild, -⟩ := jointVector_fails_iff_and_exists_solveGiven ⟨1, 1⟩ hdims loopGraph
  obtain ⟨-, hsolve⟩ := jointVector_fails_iff_and_exists_solveGiven ⟨1, 2⟩ hdims' loopGraph
  have hmisfit : ¬ FeatureLayout.Fits ⟨1, 1⟩ .edge
      (.sparse [(1, 1 / 2), (1, 1 / 2)] : FeatureVector Rat) := by decide
  have hfound : findLabelingOfGiven ⟨⟨1, 2⟩, .exhaustive⟩ loopGraph [1, 2, -3]
      (some (.list [.int 1, .int 0])) = .ok [false, false] := by decide +kernel
  obtain ⟨t, c, hread, hc, hloss, -⟩ := hsolve .exhaustive _ _ _ hfound
  have hown : (Labeling.loss [true, false] [false, false] : Except InputError Rat) = .ok 1 := by
    decide +kernel
  obtain rfl : [true, false] = t := Except.ok.inj hread
  refine ⟨hdims, by decide +kernel, ?_, c, hc, Except.ok.inj (hloss.symm.trans hown)⟩
  exact (hbuild [true, false]).1.2 (Or.inr (Or.inr ⟨0, (0, 1), _, rfl, rfl, by decide, hmisfit⟩))

end SeparationOracle

end PottsOracle
