import PottsOracle.Proofs.Oracle.Answers
import PottsOracle.Proofs.Potts.Relabel

/-!
# Graphs whose nodes are numbered anew

The same graph can be written down in different ways: its nodes may have other numbers, its edges
may be listed in another order, and any of them in the other direction (`LabeledGraph.Relabeled`).
With the minimum cut the answers of the oracle do not depend on that
(`LabeledGraph.Relabeled.same_answers`).
-/

namespace PottsOracle

namespace LabeledGraph

variable {K : Type}

/-- An edge with its vector, under new numbers for its nodes and possibly turned around. -/
def RenamedEdge (σ : Equiv.Perm ℕ) (f f' : (Nat × Nat) × FeatureVector K) : Prop :=
  SameEnds f'.1 (σ f.1.1, σ f.1.2) ∧ f'.2 = f.2

/-- Two graphs differ in the numbers of their nodes and in how their edges are listed. -/
structure Relabeled (σ : Equiv.Perm ℕ) (g g' : LabeledGraph K) : Prop where
  kind_eq : g'.kind = g.kind
  nodes : Moved σ g.nodes g'.nodes
  edges : Rearranged (RenamedEdge σ) g.featuredEdges g'.featuredEdges

namespace Relabeled

variable {σ : Equiv.Perm ℕ} {g g' : LabeledGraph K} {y y' : Labeling}

lemma order_eq (h : Relabeled σ g g') : g'.order = g.order := h.nodes.length_eq

/-! ## What contributes to the joint feature vector -/

lemma cut_iff (hy : Moved σ y y') {f f' : (Nat × Nat) × FeatureVector K}
    (hf : RenamedEdge σ f f') : Cut y' f'.1 ↔ Cut y f.1 := by
  obtain ⟨hends | hends, -⟩ := hf
  · rw [Cut, Cut, hends, hy.getD_eq, hy.getD_eq]
  · rw [Cut, Cut, hends, hy.getD_eq, hy.getD_eq, ne_comm]

lemma trueVectors_perm (h : Relabeled σ g g') (hy : Moved σ y y') :
    (g.trueVectors y).Perm (g'.trueVectors y') :=
  (h.nodes.zip hy).perm.filterMap _

lemma cutVectors_perm (h : Relabeled σ g g') (hy : Moved σ y y') :
    (g.cutVectors y).Perm (g'.cutVectors y') := by
  refine h.edges.filterMap_perm fun f f' hf => ?_
  simp only [cut_iff hy hf, hf.2]

lemma contributions_perm (h : Relabeled σ g g') (hy : Moved σ y y') :
    (g.contributions y).Perm (g'.contributions y') :=
  ((h.trueVectors_perm hy).map _).append ((h.cutVectors_perm hy).map _)

lemma edgeVectors_perm (h : Relabeled σ g g')
    (hcount : g.edges.pairs.length = g.edgeVectors.length)
    (hcount' : g'.edges.pairs.length = g'.edgeVectors.length) :
    g.edgeVectors.Perm g'.edgeVectors := by
  have hperm := h.edges.map_perm fun f f' hf => hf.2.symm
  rwa [featuredEdges, featuredEdges, List.map_snd_zip hcount.ge, List.map_snd_zip hcount'.ge]
    at hperm

end Relabeled

end LabeledGraph

namespace LabeledGraph.Relabeled

open SeparationOracle

variable {σ : Equiv.Perm ℕ} {g g' : LabeledGraph Rat} {layout : FeatureLayout} {weights : List Rat}
  {truth truth' : Option Labeling} {y y' : Labeling}

/-! ## The Potts model -/

lemma scored (h : Relabeled σ g g') (hcount : g.edges.pairs.length = g.edgeVectors.length)
    (hcount' : g'.edges.pairs.length = g'.edgeVectors.length) (hscored : Scored layout g weights) :
    Scored layout g' weights where
  length_eq := hscored.length_eq
  node v hv := hscored.node v (h.nodes.perm.mem_iff.2 hv)
  edge v hv := hscored.edge v ((h.edgeVectors_perm hcount hcount').mem_iff.2 hv)

/-- The models of relabeled graphs are relabeled. -/
lemma models (h : Relabeled σ g g') (htruth : Option.Rel (Moved σ) truth truth')
    {m m' : PottsModel Rat} (hm : IsModel layout g weights truth m)
    (hm' : IsModel layout g' weights truth' m') : m.Relabeled σ m' := by
  constructor
  · rw [hm.potentials_eq, hm'.potentials_eq]
    have hvalues : Moved σ (nodeValues layout g weights) (nodeValues layout g' weights) :=
      h.nodes.map _
    cases htruth with
    | none => exact hvalues
    | some ht => exact hvalues.zipWith ht _
  · rw [hm.couplings_eq_map, hm'.couplings_eq_map]
    refine h.edges.map ?_
    rintro ⟨⟨i, j⟩, v⟩ ⟨e', v'⟩ ⟨hends, hv⟩
    dsimp only at hends hv
    subst hv
    rcases hends with rfl | rfl
    · exact .kept _ _ _
    · exact .turned _ _ _

/-- A relabeled graph has a model if the graph has one. -/
lemma exists_model (h : Relabeled σ g g') (hcount' : g'.edges.pairs.length = g'.edgeVectors.length)
    (htruth : Option.Rel (Moved σ) truth truth') {m : PottsModel Rat}
    (hm : IsModel layout g weights truth m) :
    ∃ m', pottsModel layout g' weights truth' = .ok m' := by
  refine exists_pottsModel (h.scored hm.count_eq hcount' hm.scored) hcount' ?_ ?_
  · intro v hv
    exact hm.edge_nonneg ((h.edgeVectors_perm hm.count_eq hcount').mem_iff.2 hv)
  · intro t' ht'
    cases htruth with
    | none => cases ht'
    | some ht =>
      cases ht'
      rw [ht.length_eq, hm.truth_length _ rfl, h.order_eq]

/-- The minimum cut finds the same labeling for both graphs, every label at its new place. -/
theorem findLabeling_moved (h : Relabeled σ g g')
    (hcount' : g'.edges.pairs.length = g'.edgeVectors.length)
    (htruth : Option.Rel (Moved σ) truth truth')
    (hfound : findLabeling ⟨layout, .minCut⟩ g weights truth = .ok y) :
    ∃ y', findLabeling ⟨layout, .minCut⟩ g' weights truth' = .ok y' ∧ Moved σ y y' := by
  obtain ⟨m, hm, hsolve⟩ := bind_eq_ok_iff.1 hfound
  have hmodel := isModel_of_pottsModel hm
  obtain ⟨m', hm'⟩ := h.exists_model hcount' htruth hmodel
  have hmodel' := isModel_of_pottsModel hm'
  obtain ⟨own, y', hown, hy', hmoved⟩ := (h.models htruth hmodel hmodel').minCutLabeling_moved
    hmodel.joinsNodes hmodel'.joinsNodes hmodel.isSimple hmodel'.isSimple
  obtain rfl : own = y := Except.ok.inj (hown.symm.trans (mapError_eq_ok_iff.1 hsolve))
  exact ⟨y', bind_eq_ok_iff.2 ⟨m', hm', mapError_eq_ok_iff.2 hy'⟩, hmoved⟩

/-! ## Loss and joint feature vector -/

lemma mistakes_eq {t t' : Labeling} (ht : Moved σ t t') (hy : Moved σ y y') :
    Labeling.mistakes t' y' = Labeling.mistakes t y :=
  ((ht.zip hy).perm.countP_eq _).symm

lemma jointValue_eq (h : Relabeled σ g g') (hy : Moved σ y y') :
    jointValue layout g' weights y' = jointValue layout g weights y := by
  rw [jointValue, jointValue, ((h.trueVectors_perm hy).map _).sum_eq,
    ((h.cutVectors_perm hy).map _).sum_eq]

/-- Sparse joint feature vectors have the same terms, in another order. -/
lemma toDense_eq_of_sparse (h : Relabeled σ g g') (hscored : Scored layout g weights)
    (hscored' : Scored layout g' weights) (hkind : g.kind = .sparse) (hy : Moved σ y y')
    {psi psi' : FeatureVector Rat} (hpsi : g.jointVector g.kind layout y = .ok psi)
    (hpsi' : g'.jointVector g'.kind layout y' = .ok psi') :
    layout.toDense psi' = layout.toDense psi := by
  rw [hscored.jointVector_sparse_eq hkind (length_of_jointVector hpsi)] at hpsi
  rw [hscored'.jointVector_sparse_eq (h.kind_eq.trans hkind) (length_of_jointVector hpsi')] at hpsi'
  cases hpsi
  cases hpsi'
  exact (FeatureLayout.toDense_perm ((h.contributions_perm hy).flatMap_right _)).symm

/-- Dense joint feature vectors have the same score under all weights, so they are equal. -/
lemma eq_of_dense (h : Relabeled σ g g') (hcount : g.edges.pairs.length = g.edgeVectors.length)
    (hcount' : g'.edges.pairs.length = g'.edgeVectors.length) (hscored : Scored layout g weights)
    (hkind : g.kind = .dense) (hy : Moved σ y y') {psi psi' : FeatureVector Rat}
    (hpsi : g.jointVector g.kind layout y = .ok psi)
    (hpsi' : g'.jointVector g'.kind layout y' = .ok psi') : psi' = psi := by
  have hscores : ∀ ws : List Rat, ws.length = weights.length →
      layout.score psi' ws = layout.score psi ws := by
    intro ws hws
    have hall := hscored.of_length_eq hkind hws
    rw [(hall.score_jointVector hpsi).2,
      ((h.scored hcount hcount' hall).score_jointVector hpsi').2, h.jointValue_eq hy]
  obtain ⟨hpsiKind, hscore⟩ := hscored.score_jointVector hpsi
  have hpsiKind' := ((h.scored hcount hcount' hscored).score_jointVector hpsi').1
  rw [FeatureVector.eq_dense_entries (hpsiKind.trans hkind)] at hscores hscore ⊢
  rw [FeatureVector.eq_dense_entries (hpsiKind'.trans (h.kind_eq.trans hkind))] at hscores ⊢
  exact FeatureLayout.dense_eq_of_score hscore hscores

/-- The joint feature vectors of both graphs have the same entries. -/
theorem toDense_eq (h : Relabeled σ g g') (hcount : g.edges.pairs.length = g.edgeVectors.length)
    (hcount' : g'.edges.pairs.length = g'.edgeVectors.length) (hscored : Scored layout g weights)
    (hy : Moved σ y y') {psi psi' : FeatureVector Rat}
    (hpsi : g.jointVector g.kind layout y = .ok psi)
    (hpsi' : g'.jointVector g'.kind layout y' = .ok psi') :
    layout.toDense psi' = layout.toDense psi := by
  cases hkind : g.kind with
  | sparse =>
    exact h.toDense_eq_of_sparse hscored (h.scored hcount hcount' hscored) hkind hy hpsi hpsi'
  | dense => rw [h.eq_of_dense hcount hcount' hscored hkind hy hpsi hpsi']

/-- With the minimum cut, the answers for a graph do not depend on how it is written down: the
labelings are the same but for the places of the labels, with true labels or without, and the
constraints have the same loss and the same entries. -/
theorem moved_answers (layout : FeatureLayout) (σ : Equiv.Perm ℕ) (g g' : LabeledGraph Rat)
    (h : Relabeled σ g g') (hbuilt' : g'.IsBuilt) (weights : List Rat) :
    (∀ y, findLabeling ⟨layout, .minCut⟩ g weights none = .ok y →
      ∃ y', findLabeling ⟨layout, .minCut⟩ g' weights none = .ok y' ∧ Moved σ y y') ∧
    ∀ truth truth' : Labeling, Moved σ truth truth' →
      (∀ y, findLabeling ⟨layout, .minCut⟩ g weights (some truth) = .ok y →
        ∃ y', findLabeling ⟨layout, .minCut⟩ g' weights (some truth') = .ok y' ∧ Moved σ y y') ∧
      ∀ c, solve ⟨layout, .minCut⟩ g truth weights = .ok c →
        ∃ c', solve ⟨layout, .minCut⟩ g' truth' weights = .ok c' ∧ c'.loss = c.loss ∧
          layout.toDense c'.vector = layout.toDense c.vector ∧
          ((∀ block, 0 ≤ layout.dims block) → Word.Holds layout.total →
            ∃ entries, layout.toDense c.vector = .ok entries) := by
  have hcount' := hbuilt'.count_eq
  refine ⟨fun y => h.findLabeling_moved hcount' .none, fun truth truth' htruth => ⟨fun y =>
    h.findLabeling_moved hcount' (.some htruth), ?_⟩⟩
  intro c hc
  obtain ⟨y, hfound, hloss, hpsi⟩ := exists_of_solve _ hc
  obtain ⟨y', hfound', hy⟩ := h.findLabeling_moved hcount' (.some htruth) hfound
  obtain ⟨m, hm, -⟩ := bind_eq_ok_iff.1 hfound
  have hmodel := isModel_of_pottsModel hm
  have hscored := hmodel.scored
  have hscored' := h.scored hmodel.count_eq hcount' hscored
  have horder : y.length = g.order := length_of_jointVector hpsi
  have horder' : y'.length = g'.order := by rw [hy.length_eq, horder, h.order_eq]
  have hlength : truth.length = y.length := (hmodel.truth_length truth rfl).trans horder.symm
  have hlength' : truth'.length = y'.length := by rw [htruth.length_eq, hy.length_eq, hlength]
  obtain ⟨psi', hpsi', -⟩ := exists_jointVector hscored' horder'
  refine ⟨⟨Labeling.mistakes truth' y', psi'⟩, solve_eq _ hfound' hlength' hpsi', ?_,
    h.toDense_eq hmodel.count_eq hcount' hscored hy hpsi hpsi', ?_⟩
  · rw [Labeling.loss_eq hlength] at hloss
    rw [mistakes_eq htruth hy]
    exact Except.ok.inj hloss
  · intro hdims hword
    obtain ⟨entries, hentries, -⟩ := FeatureLayout.exists_toDense (hscored.holds hdims hpsi)
      (add_nonneg (hdims .edge) (hdims .node)) hword
    exact ⟨entries, hentries⟩

/-- The graph with loops, with its two nodes exchanged, its edges in the other order, and the edge
between the nodes turned around. -/
def swappedLoopGraph : LabeledGraph Rat where
  kind := .sparse
  nodes := [.sparse [], .sparse [(0, 1), (0, 2)]]
  edges := ⟨[(0, 0), (0, 1)], by decide, by decide⟩
  edgeVectors := [.sparse [(0, 3)], .sparse [(1, 1 / 2), (1, 1 / 2)]]
  kind_of_mem_nodes := by simp [FeatureVector.kind]
  kind_of_mem_edgeVectors := by simp [FeatureVector.kind]

lemma moved_swap {α : Type} (a b : α) : Moved (Equiv.swap 0 1) [a, b] [b, a] := by
  rintro (_ | _ | i)
  · simp
  · simp
  · rw [Equiv.swap_apply_of_ne_of_ne (by omega) (by omega)]
    rfl

lemma relabeled_loopGraph : Relabeled (Equiv.swap 0 1) loopGraph swappedLoopGraph where
  kind_eq := rfl
  nodes := moved_swap _ _
  edges := by
    refine ⟨[((0, 1), .sparse [(1, 1 / 2), (1, 1 / 2)]), ((0, 0), .sparse [(0, 3)])], ?_,
      .swap _ _ _⟩
    refine .cons ⟨Or.inr ?_, rfl⟩ (.cons ⟨Or.inl ?_, rfl⟩ .nil)
    · simp
    · simp

theorem moved_answers_loopGraph :
    Relabeled (Equiv.swap 0 1) loopGraph swappedLoopGraph ∧ swappedLoopGraph.IsBuilt ∧
      ∃ y y' c c',
        findLabeling ⟨⟨1, 2⟩, .minCut⟩ loopGraph [1, 2, -3] (some [true, false]) = .ok y ∧
        findLabeling ⟨⟨1, 2⟩, .minCut⟩ swappedLoopGraph [1, 2, -3] (some [false, true]) = .ok y' ∧
        Moved (Equiv.swap 0 1) y y' ∧
        solve ⟨⟨1, 2⟩, .minCut⟩ loopGraph [true, false] [1, 2, -3] = .ok c ∧
        solve ⟨⟨1, 2⟩, .minCut⟩ swappedLoopGraph [false, true] [1, 2, -3] = .ok c' ∧
        c'.loss = c.loss ∧
        FeatureLayout.toDense ⟨1, 2⟩ c'.vector = FeatureLayout.toDense ⟨1, 2⟩ c.vector := by
  have hbuilt : swappedLoopGraph.IsBuilt :=
    ⟨.sparse, swappedLoopGraph.nodes, [(0, 0), (0, 1)], swappedLoopGraph.edgeVectors, rfl⟩
  have htruth : Moved (Equiv.swap 0 1) [true, false] [false, true] := moved_swap true false
  obtain ⟨-, hanswers⟩ := moved_answers ⟨1, 2⟩ (Equiv.swap 0 1) loopGraph swappedLoopGraph
    relabeled_loopGraph hbuilt [1, 2, -3]
  obtain ⟨hlabeling, hconstraint⟩ := hanswers [true, false] [false, true] htruth
  -- the oracle answers for the graph as it was
  have hscored : Scored ⟨1, 2⟩ loopGraph [1, 2, -3] :=
    scored_of_fits (by decide) (by decide) rfl (by decide) (by decide)
  have hedges : ∀ v ∈ loopGraph.edgeVectors,
      0 ≤ FeatureLayout.blockValue ⟨1, 2⟩ .edge [1, 2, -3] v := by
    decide +kernel
  obtain ⟨m, hm⟩ := exists_pottsModel hscored rfl hedges
    (show ∀ t ∈ some [true, false], t.length = loopGraph.order by decide)
  obtain ⟨y, hfound, hy⟩ := exists_labeling ⟨⟨1, 2⟩, .minCut⟩ hm nofun
  obtain ⟨psi, hpsi, -⟩ := exists_jointVector hscored hy
  have hc := solve_eq ⟨⟨1, 2⟩, .minCut⟩ hfound hy.symm hpsi
  obtain ⟨y', hfound', hmoved⟩ := hlabeling y hfound
  obtain ⟨c', hc', hloss, hvector, -⟩ := hconstraint _ hc
  exact ⟨relabeled_loopGraph, hbuilt, y, y', _, c', hfound, hfound', hmoved, hc, hc', hloss, hvector⟩

end LabeledGraph.Relabeled

end PottsOracle
