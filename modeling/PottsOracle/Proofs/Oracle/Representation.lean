import PottsOracle.Proofs.Oracle.Answers

/-!
# Dense and sparse graphs

A dense graph can be written down as a sparse one: with terms that stand for the entries of every
vector, however many and in whatever order (`SparseForm`).  Both graphs get the same answers
(`SparseForm.same_answers`).  Their vectors have the same scores, so they have the same Potts model
and the same labelings; and the joint feature vectors, which are built in different ways, are
compared by their scores under all weights.
-/

namespace PottsOracle

namespace FeatureLayout

variable {layout : FeatureLayout} {block : FeatureBlock} {weights : List Rat}

/-- Terms have the score of the entries that they stand for. -/
lemma blockScore_eq_of_standsFor (hweights : weights.length = layout.total)
    (hdims : ∀ block, 0 ≤ layout.dims block) {terms : List (ℤ × Rat)} {entries : List Rat}
    (h : FeatureVector.StandsFor terms entries) (hfits : layout.Fits block (.dense entries)) :
    layout.blockScore block weights (.sparse terms) =
      layout.blockScore block weights (.dense entries) := by
  have hentries : (entries.length : ℤ) = layout.dims block := hfits
  have hlength : ((layout.blockWeights block weights).length : ℤ) = layout.dims block :=
    length_blockWeights hweights (hdims .node) (hdims .edge)
  have hblock : ∀ t ∈ terms, layout.InBlock block t.1 := by
    intro t ht
    rw [InBlock, ← hentries]
    exact h.place t ht
  rw [blockScore_dense_eq_ok_iff.2 ⟨hentries, by omega, rfl⟩, blockScore_sparse_eq_ok_iff]
  refine ⟨hblock, terms.map fun t => (layout.blockWeights block weights).getD t.1.toNat 0 * t.2, ?_,
    (h.dot_eq (by omega)).symm⟩
  rw [List.forall₂_map_right_iff, List.forall₂_same]
  intro t ht
  exact ⟨_, weightAt_eq_of_inBlock hweights (hdims .node) (hdims .edge) (hblock t ht), rfl⟩

end FeatureLayout

namespace SeparationOracle

variable {layout : FeatureLayout} {g g' : LabeledGraph Rat} {weights : List Rat}

/-- What is made of the vectors of a graph is made of their scores. -/
lemma scores_congr {layout' : FeatureLayout} {weights' : List Rat} {block : FeatureBlock}
    {vectors vectors' : List (FeatureVector Rat)}
    (h : vectors'.map (layout'.blockScore block weights') =
      vectors.map (layout.blockScore block weights)) :
    scores layout' block weights' vectors' = scores layout block weights vectors := by
  rw [scores, scores, mapM_congr_map h]

/-- Two graphs have the same edges, and their vectors have the same scores. -/
structure SameScores (layout : FeatureLayout) (weights : List Rat) (g' g : LabeledGraph Rat) :
    Prop where
  pairs_eq : g'.edges.pairs = g.edges.pairs
  node : g'.nodes.map (layout.blockScore .node weights) =
    g.nodes.map (layout.blockScore .node weights)
  edge : g'.edgeVectors.map (layout.blockScore .edge weights) =
    g.edgeVectors.map (layout.blockScore .edge weights)

namespace SameScores

lemma order_eq (h : SameScores layout weights g' g) : g'.order = g.order := by
  rw [LabeledGraph.order, LabeledGraph.order, ← List.length_map, h.node, List.length_map]

/-- Graphs with the same scores have the same Potts model. -/
lemma pottsModel_eq (h : SameScores layout weights g' g) (truth : Option Labeling) :
    pottsModel layout g' weights truth = pottsModel layout g weights truth := by
  rw [pottsModel, pottsModel, nodeScores, nodeScores, scores_congr h.node, scores_congr h.edge,
    h.pairs_eq, h.order_eq]

lemma scored (h : SameScores layout weights g' g) (hscored : Scored layout g weights) :
    Scored layout g' weights := by
  have hnode := (scores_congr h.node).trans (scores_eq_ok_iff.2 ⟨hscored.node, rfl⟩)
  have hedge := (scores_congr h.edge).trans (scores_eq_ok_iff.2 ⟨hscored.edge, rfl⟩)
  exact ⟨hscored.length_eq, (scores_eq_ok_iff.1 hnode).1, (scores_eq_ok_iff.1 hedge).1⟩

lemma jointValue_eq (h : SameScores layout weights g' g) (y : Labeling) :
    jointValue layout g' weights y = jointValue layout g weights y := by
  have hvalue : ∀ block, layout.blockValue block weights =
      (fun s => s.toOption.getD 0) ∘ layout.blockScore block weights := fun _ => rfl
  rw [jointValue, jointValue, map_trueVectors, map_trueVectors, map_cutVectors, map_cutVectors,
    hvalue, hvalue, ← List.map_map, ← List.map_map, ← List.map_map, ← List.map_map, h.node, h.edge,
    h.pairs_eq]

end SameScores

/-- Joint feature vectors whose scores agree under all weights have the same entries. -/
lemma toDense_eq_of_sameScores (hdims : ∀ block, 0 ≤ layout.dims block)
    (hword : Word.Holds layout.total)
    (hscored : ∀ weights : List Rat, weights.length = layout.total → Scored layout g weights)
    (h : ∀ weights : List Rat, weights.length = layout.total → SameScores layout weights g' g)
    {y : Labeling} {psi psi' : FeatureVector Rat} (hpsi : g.jointVector g.kind layout y = .ok psi)
    (hpsi' : g'.jointVector g'.kind layout y = .ok psi') :
    layout.toDense psi' = layout.toDense psi := by
  have htotal : 0 ≤ layout.total := add_nonneg (hdims .edge) (hdims .node)
  -- any weights of the right length will do
  have hzeros : (List.replicate layout.total.toNat (0 : Rat)).length = layout.total := by
    rw [List.length_replicate, Int.toNat_of_nonneg htotal]
  have hholds := (hscored _ hzeros).holds hdims hpsi
  have hholds' := ((h _ hzeros).scored (hscored _ hzeros)).holds hdims hpsi'
  refine FeatureLayout.toDense_eq_of_score hholds' hholds htotal hword ?_
  intro weights hweights
  rw [((hscored weights hweights).score_jointVector hpsi).2,
    (((h weights hweights).scored (hscored weights hweights)).score_jointVector hpsi').2,
    (h weights hweights).jointValue_eq]

end SeparationOracle

namespace LabeledGraph

/-- A sparse graph in which every vector stands for the vector of a dense graph. -/
structure SparseForm (sparse dense : LabeledGraph Rat) : Prop where
  sparse_kind : sparse.kind = .sparse
  dense_kind : dense.kind = .dense
  pairs_eq : sparse.edges.pairs = dense.edges.pairs
  nodes : List.Forall₂ (fun v u => FeatureVector.StandsFor v.terms u.entries)
    sparse.nodes dense.nodes
  edgeVectors : List.Forall₂ (fun v u => FeatureVector.StandsFor v.terms u.entries)
    sparse.edgeVectors dense.edgeVectors

namespace SparseForm

open SeparationOracle

variable {layout : FeatureLayout} {sparse dense : LabeledGraph Rat} {weights : List Rat}

lemma map_blockScore_eq {block : FeatureBlock} (hweights : weights.length = layout.total)
    (hdims : ∀ block, 0 ≤ layout.dims block) {vs us : List (FeatureVector Rat)}
    (h : List.Forall₂ (fun v u => FeatureVector.StandsFor v.terms u.entries) vs us)
    (hvs : ∀ v ∈ vs, v.kind = .sparse) (hus : ∀ u ∈ us, u.kind = .dense)
    (hfits : ∀ u ∈ us, layout.Fits block u) :
    vs.map (layout.blockScore block weights) = us.map (layout.blockScore block weights) := by
  induction h with
  | nil => rfl
  | @cons v u vs us hstands _ ih =>
    have hv := FeatureVector.eq_sparse_terms (hvs v List.mem_cons_self)
    have hu := FeatureVector.eq_dense_entries (hus u List.mem_cons_self)
    have hfit := hfits u List.mem_cons_self
    have hscore : layout.blockScore block weights v = layout.blockScore block weights u := by
      rw [hv, hu]
      exact FeatureLayout.blockScore_eq_of_standsFor hweights hdims hstands (hu ▸ hfit)
    rw [List.map_cons, List.map_cons, hscore, ih (fun v hv => hvs v (List.mem_cons_of_mem _ hv))
      (fun u hu => hus u (List.mem_cons_of_mem _ hu))
      fun u hu => hfits u (List.mem_cons_of_mem _ hu)]

/-- The sparse form of a graph has its scores. -/
theorem sameScores (h : SparseForm sparse dense) (hdims : ∀ block, 0 ≤ layout.dims block)
    (hfits : ∀ block, ∀ v ∈ dense.vectors block, layout.Fits block v)
    (hweights : weights.length = layout.total) : SameScores layout weights sparse dense := by
  refine ⟨h.pairs_eq, map_blockScore_eq hweights hdims h.nodes ?_ ?_ (hfits .node),
    map_blockScore_eq hweights hdims h.edgeVectors ?_ ?_ (hfits .edge)⟩
  · exact fun v hv => (sparse.kind_of_mem_nodes v hv).trans h.sparse_kind
  · exact fun v hv => (dense.kind_of_mem_nodes v hv).trans h.dense_kind
  · exact fun v hv => (sparse.kind_of_mem_edgeVectors v hv).trans h.sparse_kind
  · exact fun v hv => (dense.kind_of_mem_edgeVectors v hv).trans h.dense_kind

/-- The joint feature vectors of a graph and of its sparse form have the same entries. -/
lemma exists_jointVectors (h : SparseForm sparse dense) (hdims : ∀ block, 0 ≤ layout.dims block)
    (hword : Word.Holds layout.total)
    (hfits : ∀ block, ∀ v ∈ dense.vectors block, layout.Fits block v)
    (hweights : weights.length = layout.total) {y : Labeling} (hy : y.length = dense.order) :
    ∃ terms entries score,
      sparse.jointVector sparse.kind layout y = .ok (.sparse terms) ∧
        dense.jointVector dense.kind layout y = .ok (.dense entries) ∧
        layout.toDense (.sparse terms) = .ok entries ∧
        layout.score (.sparse terms) weights = .ok score ∧
        layout.score (.dense entries) weights = .ok score := by
  have hscored : ∀ ws : List Rat, ws.length = layout.total → Scored layout dense ws :=
    fun ws hws => scored_of_fits (hfits .node) (hfits .edge) hws (hdims .node) (hdims .edge)
  have hsame : ∀ ws : List Rat, ws.length = layout.total → SameScores layout ws sparse dense :=
    fun ws hws => h.sameScores hdims hfits hws
  have hsparse := (hsame weights hweights).scored (hscored weights hweights)
  have horder := (hsame weights hweights).order_eq
  obtain ⟨phi, hphi, hphiKind, hphiScore⟩ := exists_jointVector hsparse (hy.trans horder.symm)
  obtain ⟨psi, hpsi, hpsiKind, hpsiScore⟩ := exists_jointVector (hscored weights hweights) hy
  have hentries := toDense_eq_of_sameScores hdims hword hscored hsame hpsi hphi
  rw [(hsame weights hweights).jointValue_eq] at hphiScore
  obtain ⟨terms, rfl⟩ : ∃ terms, phi = .sparse terms :=
    ⟨_, FeatureVector.eq_sparse_terms (hphiKind.trans h.sparse_kind)⟩
  obtain ⟨entries, rfl⟩ : ∃ entries, psi = .dense entries :=
    ⟨_, FeatureVector.eq_dense_entries (hpsiKind.trans h.dense_kind)⟩
  exact ⟨terms, entries, _, hphi, hpsi, hentries, hphiScore, hpsiScore⟩

/-- A dense graph and its sparse form have the same answers: joint feature vectors with the same
entries and scores, the same Potts model, and constraints with the same loss and the same entries.
There is no constraint without a Potts model, or if there are too many nodes to search.  The layout
is one that weights can have: no length is negative, and a word holds the number of weights. -/
theorem same_answers (layout : FeatureLayout) (sparse dense : LabeledGraph Rat)
    (h : SparseForm sparse dense) (hdims : ∀ block, 0 ≤ layout.dims block)
    (hword : Word.Holds layout.total)
    (hfits : ∀ block, ∀ v ∈ dense.vectors block, layout.Fits block v) (weights : List Rat)
    (hweights : weights.length = layout.total) :
    (∀ y : Labeling, y.length = dense.order → ∃ terms entries score,
      sparse.jointVector sparse.kind layout y = .ok (.sparse terms) ∧
        dense.jointVector dense.kind layout y = .ok (.dense entries) ∧
        layout.toDense (.sparse terms) = .ok entries ∧
        layout.score (.sparse terms) weights = .ok score ∧
        layout.score (.dense entries) weights = .ok score) ∧
    (∀ y : Labeling, y.length ≠ dense.order → ∃ e,
      sparse.jointVector sparse.kind layout y = .error e ∧
        dense.jointVector dense.kind layout y = .error e) ∧
    (∀ truth, pottsModel layout sparse weights truth = pottsModel layout dense weights truth) ∧
    ∀ solver truth,
      (∃ loss terms entries, solve ⟨layout, solver⟩ sparse truth weights = .ok ⟨loss, .sparse terms⟩ ∧
        solve ⟨layout, solver⟩ dense truth weights = .ok ⟨loss, .dense entries⟩ ∧
        layout.toDense (.sparse terms) = .ok entries) ∨
      ((∀ m, pottsModel layout dense weights (some truth) ≠ .ok m) ∨
        solver = .exhaustive ∧ maxSearchedNodes < dense.order) ∧
        ∃ e, solve ⟨layout, solver⟩ sparse truth weights = .error e ∧
          solve ⟨layout, solver⟩ dense truth weights = .error e := by
  have hsame : SameScores layout weights sparse dense := h.sameScores hdims hfits hweights
  have horder := hsame.order_eq
  refine ⟨fun y => h.exists_jointVectors hdims hword hfits hweights, ?_, hsame.pottsModel_eq, ?_⟩
  · intro y hy
    refine ⟨.layout (.labelCount y.length dense.order), ?_, ?_⟩
    · rw [jointVector, horder, if_neg hy]
    · rw [jointVector, if_neg hy]
  intro solver truth
  have hfind : findLabeling ⟨layout, solver⟩ sparse weights (some truth) =
      findLabeling ⟨layout, solver⟩ dense weights (some truth) := by
    rw [findLabeling, findLabeling, hsame.pottsModel_eq]
  cases hm : pottsModel layout dense weights (some truth) with
  | error e =>
    refine Or.inr ⟨Or.inl fun m => by simp, e, ?_⟩
    rw [solve, solve, hfind, findLabeling, hm]
    exact ⟨rfl, rfl⟩
  | ok m =>
    by_cases hsearch : solver = .exhaustive → dense.order ≤ maxSearchedNodes
    · obtain ⟨y, hfound, hy⟩ := exists_labeling ⟨layout, solver⟩ hm hsearch
      obtain ⟨terms, entries, -, hphi, hpsi, hentries, -⟩ :=
        h.exists_jointVectors hdims hword hfits hweights hy
      have htruth : truth.length = dense.order := (scored_of_pottsModel hm).2 truth rfl
      have hlength := htruth.trans hy.symm
      exact Or.inl ⟨Labeling.mistakes truth y, terms, entries,
        solve_eq ⟨layout, solver⟩ (hfind.trans hfound) hlength hphi,
        solve_eq ⟨layout, solver⟩ hfound hlength hpsi, hentries⟩
    · rw [Classical.not_imp, not_le] at hsearch
      refine Or.inr ⟨Or.inr hsearch, .solver (.tooManyNodes dense.order), ?_⟩
      rw [solve, solve, hfind, findLabeling_eq_error ⟨layout, solver⟩ hm hsearch.1 hsearch.2]
      exact ⟨rfl, rfl⟩

/-- The pair of nodes with terms for vectors: out of order, with an entry in parts, without zeros, and
with a zero. -/
def sparsePairGraph : LabeledGraph Rat where
  kind := .sparse
  nodes := [.sparse [(1, 2), (0, 1 / 2), (0, 1 / 2)], .sparse (FeatureVector.nonzeroTerms [-1, 0])]
  edges := ⟨[(1, 0)], by decide, EdgeList.distinct_pair⟩
  edgeVectors := [.sparse [(0, 4), (0, 0), (0, -1)]]
  kind_of_mem_nodes := by simp [FeatureVector.kind]
  kind_of_mem_edgeVectors := by simp [FeatureVector.kind]

lemma sparseForm_pairGraph : SparseForm sparsePairGraph Problem.pairGraph where
  sparse_kind := rfl
  dense_kind := rfl
  pairs_eq := rfl
  nodes := .cons (by decide +kernel) (.cons (FeatureVector.standsFor_nonzeroTerms [-1, 0]) .nil)
  edgeVectors := .cons (by decide +kernel) .nil

theorem same_answers_pairGraph :
    SparseForm sparsePairGraph Problem.pairGraph ∧ Word.Holds (FeatureLayout.total ⟨2, 1⟩) ∧
      (∃ terms entries score,
        sparsePairGraph.jointVector .sparse ⟨2, 1⟩ [true, false] = .ok (.sparse terms) ∧
          Problem.pairGraph.jointVector .dense ⟨2, 1⟩ [true, false] = .ok (.dense entries) ∧
          FeatureLayout.toDense ⟨2, 1⟩ (.sparse terms) = .ok entries ∧
          FeatureLayout.score ⟨2, 1⟩ (.sparse terms) [1 / 2, 1, -1] = .ok score ∧
          FeatureLayout.score ⟨2, 1⟩ (.dense entries) [1 / 2, 1, -1] = .ok score) ∧
      ∃ loss terms entries,
        solve ⟨⟨2, 1⟩, .minCut⟩ sparsePairGraph [true, false] [1 / 2, 1, -1] =
            .ok ⟨loss, .sparse terms⟩ ∧
          solve ⟨⟨2, 1⟩, .minCut⟩ Problem.pairGraph [true, false] [1 / 2, 1, -1] =
            .ok ⟨loss, .dense entries⟩ ∧
          FeatureLayout.toDense ⟨2, 1⟩ (.sparse terms) = .ok entries := by
  have hword : Word.Holds (FeatureLayout.total ⟨2, 1⟩) := by decide
  have hdims : ∀ block, 0 ≤ FeatureLayout.dims ⟨2, 1⟩ block := by
    intro block
    cases block <;> decide
  have hfits : ∀ block, ∀ v ∈ Problem.pairGraph.vectors block,
      FeatureLayout.Fits ⟨2, 1⟩ block v := by
    intro block
    cases block <;> decide
  have hedges : ∀ v ∈ Problem.pairGraph.edgeVectors,
      0 ≤ FeatureLayout.blockValue ⟨2, 1⟩ .edge [1 / 2, 1, -1] v := by
    decide +kernel
  obtain ⟨m, hm⟩ := exists_pottsModel
    (scored_of_fits (hfits .node) (hfits .edge) rfl (hdims .node) (hdims .edge)) rfl hedges
    (show ∀ t ∈ some [true, false], t.length = Problem.pairGraph.order by decide)
  obtain ⟨hvectors, -, -, hsolve⟩ := same_answers ⟨2, 1⟩ sparsePairGraph Problem.pairGraph
    sparseForm_pairGraph hdims hword hfits [1 / 2, 1, -1] rfl
  refine ⟨sparseForm_pairGraph, hword, hvectors [true, false] rfl, ?_⟩
  rcases hsolve .minCut [true, false] with hboth | ⟨hnone | ⟨hsolver, -⟩, -⟩
  · exact hboth
  · exact absurd hm (hnone m)
  · cases hsolver

end SparseForm

end LabeledGraph

end PottsOracle
