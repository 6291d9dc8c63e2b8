import PottsOracle.Proofs.Oracle.Representation

/-!
# Larger layouts for sparse graphs

Both blocks of a layout may grow, say because a sample with larger indices is added.  A sparse graph
that fits the small layout does not notice, whatever the new weights are.  Its vectors have the same
scores (`FeatureLayout.Grows.blockScore_eq`), because an index of a block has the same weight in
both layouts; and its joint feature vectors are the same but for the terms of the node block, which
now starts later (`FeatureLayout.allPlaced_eq_map_raise`).
-/

namespace PottsOracle

namespace FeatureLayout

/-- Both blocks of a layout are at least as long as those of another one. -/
structure Grows (small large : FeatureLayout) : Prop where
  dims_nonneg : ∀ block, 0 ≤ small.dims block
  dims_le : ∀ block, small.dims block ≤ large.dims block

/-- The weights of a large layout that a small one has as well: those at the start of each block. -/
def restrict (small large : FeatureLayout) (weights : List Rat) : List Rat :=
  (large.blockWeights .edge weights).take small.edgeDims.toNat ++
    (large.blockWeights .node weights).take small.nodeDims.toNat

/-- Where an index of a joint feature vector is in a larger layout: the edge block stays where it
is, and the node block starts after the new edge block. -/
def raise (small large : FeatureLayout) (i : ℤ) : ℤ :=
  if i < small.edgeDims then i else i + (large.edgeDims - small.edgeDims)

/-- A sparse joint feature vector in a larger layout. -/
def raised (small large : FeatureLayout) (psi : FeatureVector Rat) : FeatureVector Rat :=
  .sparse (psi.terms.map fun term => (small.raise large term.1, term.2))

namespace Grows

variable {small large : FeatureLayout} {block : FeatureBlock} {weights : List Rat}

lemma large_nonneg (h : Grows small large) (block : FeatureBlock) : 0 ≤ large.dims block :=
  (h.dims_nonneg block).trans (h.dims_le block)

lemma inBlock (h : Grows small large) {i : ℤ} (hi : small.InBlock block i) :
    large.InBlock block i :=
  ⟨hi.1, hi.2.trans_le (h.dims_le block)⟩

/-- Sparse vectors that fit still fit. -/
lemma fits (h : Grows small large) {v : FeatureVector Rat} (hkind : v.kind = .sparse)
    (hfits : small.Fits block v) : large.Fits block v := by
  cases v with
  | dense entries => cases hkind
  | sparse terms => exact fun term hterm => h.inBlock (hfits term hterm)

/-! ## Weights -/

lemma length_take_blockWeights (h : Grows small large) (hweights : weights.length = large.total)
    (block : FeatureBlock) :
    (((large.blockWeights block weights).take (small.dims block).toNat).length : ℤ) =
      small.dims block := by
  have hlength : ((large.blockWeights block weights).length : ℤ) = large.dims block :=
    length_blockWeights hweights (h.large_nonneg .node) (h.large_nonneg .edge)
  have hle := h.dims_le block
  have hnonneg := h.dims_nonneg block
  rw [List.length_take]
  omega

lemma length_restrict (h : Grows small large) (hweights : weights.length = large.total) :
    (small.restrict large weights).length = small.total := by
  have hedge := h.length_take_blockWeights hweights .edge
  have hnode := h.length_take_blockWeights hweights .node
  rw [restrict, List.length_append, total]
  exact congrArg₂ (· + ·) hedge hnode

/-- The small layout has the first weights of each block. -/
lemma blockWeights_restrict (h : Grows small large) (hweights : weights.length = large.total)
    (block : FeatureBlock) :
    small.blockWeights block (small.restrict large weights) =
      (large.blockWeights block weights).take (small.dims block).toNat := by
  have hedge := h.length_take_blockWeights hweights .edge
  have hcut := boundary_eq (h.length_restrict hweights) (h.dims_nonneg .node) (h.dims_nonneg .edge)
  have hboundary : small.boundary (small.restrict large weights).length =
      ((large.blockWeights .edge weights).take small.edgeDims.toNat).length := by
    rw [dims] at hedge
    omega
  cases block with
  | node => rw [blockWeights, hboundary, restrict, List.drop_left, dims]
  | edge => rw [blockWeights, hboundary, restrict, List.take_left, dims]

/-- An index of a block has the same weight in both layouts. -/
lemma weightAt_eq (h : Grows small large) (hweights : weights.length = large.total) {i : ℤ}
    (hi : small.InBlock block i) :
    weightAt (small.restrict large weights) (i + small.offset block) =
      weightAt weights (i + large.offset block) := by
  have hlt : i.toNat < (small.dims block).toNat := by
    obtain ⟨h0, hlt⟩ := hi
    omega
  rw [weightAt_eq_of_inBlock (h.length_restrict hweights) (h.dims_nonneg .node)
      (h.dims_nonneg .edge) hi,
    weightAt_eq_of_inBlock hweights (h.large_nonneg .node) (h.large_nonneg .edge) (h.inBlock hi),
    h.blockWeights_restrict hweights, List.getD_eq_getElem?_getD, List.getElem?_take_of_lt hlt,
    ← List.getD_eq_getElem?_getD]

/-- A sparse vector that fits has the same score in both layouts. -/
lemma blockScore_eq (h : Grows small large) (hweights : weights.length = large.total)
    {v : FeatureVector Rat} (hkind : v.kind = .sparse) (hfits : small.Fits block v) :
    large.blockScore block weights v =
      small.blockScore block (small.restrict large weights) v := by
  cases v with
  | dense entries => cases hkind
  | sparse terms =>
    have hterm : ∀ term ∈ terms, large.termScore block weights term =
        small.termScore block (small.restrict large weights) term := by
      intro term hterm
      have hi := hfits term hterm
      rw [termScore, if_pos (h.inBlock hi), termScore, if_pos hi, h.weightAt_eq hweights hi]
    rw [blockScore, blockScore, mapM_congr_map (List.map_congr_left hterm)]

end Grows

/-! ## Joint feature vectors -/

variable {small large : FeatureLayout}

/-- The terms of a vector that fits are moved with its block. -/
lemma placed_eq_map_raise {block : FeatureBlock} {terms : List (ℤ × Rat)}
    (hfits : small.Fits block (.sparse terms)) :
    large.placed block terms =
      (small.placed block terms).map fun term => (small.raise large term.1, term.2) := by
  rw [placed, placed, List.map_map]
  refine List.map_congr_left ?_
  intro term hterm
  obtain ⟨h0, hlt⟩ := hfits term hterm
  have hplace : small.raise large (term.1 + small.offset block) = term.1 + large.offset block := by
    cases block with
    | node =>
      rw [raise, offset, offset, if_neg (by omega)]
      ring
    | edge =>
      rw [dims] at hlt
      rw [raise, offset, offset, add_zero, if_pos hlt]
  rw [Function.comp_apply, hplace]

/-- So are the terms of all contributions. -/
lemma allPlaced_eq_map_raise {contributions : List (FeatureBlock × FeatureVector Rat)}
    (hall : ∀ c ∈ contributions, c.2.kind = .sparse ∧ small.Fits c.1 c.2) :
    large.allPlaced contributions =
      (small.allPlaced contributions).map fun term => (small.raise large term.1, term.2) := by
  rw [allPlaced, allPlaced, List.map_flatMap]
  refine List.flatMap_congr ?_
  rintro ⟨block, v⟩ hc
  obtain ⟨hkind, hfits⟩ := hall _ hc
  cases v with
  | dense entries => cases hkind
  | sparse terms => exact placed_eq_map_raise hfits

end FeatureLayout

namespace LabeledGraph

open FeatureLayout SeparationOracle

variable {small large : FeatureLayout} {g : LabeledGraph Rat} {weights : List Rat}

/-- A sparse graph fits the smaller of two layouts, and there are weights for the larger one. -/
structure FitsGrown (small large : FeatureLayout) (g : LabeledGraph Rat) (weights : List Rat) :
    Prop where
  grows : Grows small large
  kind_eq : g.kind = .sparse
  fits : ∀ block, ∀ v ∈ g.vectors block, small.Fits block v
  length_eq : weights.length = large.total

namespace FitsGrown

variable (h : FitsGrown small large g weights)

include h

lemma kind_vector {block : FeatureBlock} {v : FeatureVector Rat} (hv : v ∈ g.vectors block) :
    v.kind = .sparse :=
  (kind_of_mem_vectors hv).trans h.kind_eq

/-- All vectors have the same scores in both layouts. -/
lemma map_blockScore_eq (block : FeatureBlock) :
    (g.vectors block).map (large.blockScore block weights) =
      (g.vectors block).map (small.blockScore block (small.restrict large weights)) :=
  List.map_congr_left fun v hv =>
    h.grows.blockScore_eq h.length_eq (h.kind_vector hv) (h.fits block v hv)

lemma scored : Scored small g (small.restrict large weights) :=
  scored_of_fits (h.fits .node) (h.fits .edge) (h.grows.length_restrict h.length_eq)
    (h.grows.dims_nonneg .node) (h.grows.dims_nonneg .edge)

/-- The Potts model is the same, or cannot be built for the same reason. -/
lemma pottsModel_eq (truth : Option Labeling) :
    pottsModel large g weights truth = pottsModel small g (small.restrict large weights) truth := by
  have hnodes : nodeScores large g weights =
      nodeScores small g (small.restrict large weights) := by
    rw [nodeScores, nodeScores, checkWeights, checkWeights, if_pos h.length_eq,
      if_pos (h.grows.length_restrict h.length_eq)]
    exact scores_congr (h.map_blockScore_eq .node)
  have hedges : scores large .edge weights g.edgeVectors =
      scores small .edge (small.restrict large weights) g.edgeVectors :=
    scores_congr (h.map_blockScore_eq .edge)
  rw [pottsModel, pottsModel, hnodes, hedges]

lemma findLabeling_eq (solver : Solver) (truth : Option Labeling) :
    findLabeling ⟨large, solver⟩ g weights truth =
      findLabeling ⟨small, solver⟩ g (small.restrict large weights) truth := by
  rw [findLabeling, findLabeling, h.pottsModel_eq]

/-- The joint feature vector is the same, but for where the terms of the node block are. -/
lemma jointVector_eq (y : Labeling) :
    g.jointVector g.kind large y = (g.jointVector g.kind small y).map (small.raised large) := by
  by_cases hy : y.length = g.order
  · have hsmall : ∀ c ∈ g.contributions y, c.2.kind = .sparse ∧ small.Fits c.1 c.2 := by
      intro c hc
      have hmem := mem_vectors_of_mem_contributions hc
      exact ⟨h.kind_vector hmem, h.fits c.1 c.2 hmem⟩
    have hlarge : ∀ c ∈ g.contributions y, c.2.kind = .sparse ∧ large.Fits c.1 c.2 :=
      fun c hc => ⟨(hsmall c hc).1, h.grows.fits (hsmall c hc).1 (hsmall c hc).2⟩
    rw [jointVector, jointVector, if_pos hy, if_pos hy, h.kind_eq, zeros, zeros,
      contributeAll_sparse_eq hsmall, contributeAll_sparse_eq hlarge, List.nil_append,
      List.nil_append, allPlaced_eq_map_raise hsmall]
    rfl
  · rw [jointVector, jointVector, if_neg hy, if_neg hy]
    rfl

/-- The joint feature vectors have the same score. -/
lemma jointValue_eq (y : Labeling) :
    jointValue large g weights y = jointValue small g (small.restrict large weights) y := by
  have hvalue : ∀ block, ∀ v ∈ g.vectors block, large.blockValue block weights v =
      small.blockValue block (small.restrict large weights) v := by
    intro block v hv
    rw [blockValue, blockValue, h.grows.blockScore_eq h.length_eq (h.kind_vector hv)
      (h.fits block v hv)]
  have hnodes : (g.trueVectors y).map (large.blockValue .node weights) =
      (g.trueVectors y).map (small.blockValue .node (small.restrict large weights)) := by
    refine List.map_congr_left ?_
    intro v hv
    obtain ⟨i, hi, -⟩ := mem_trueVectors_iff.1 hv
    exact hvalue .node v (List.mem_of_getElem? hi)
  have hedges : (g.cutVectors y).map (large.blockValue .edge weights) =
      (g.cutVectors y).map (small.blockValue .edge (small.restrict large weights)) :=
    List.map_congr_left fun v hv => hvalue .edge v (mem_edgeVectors_of_mem_cutVectors hv)
  rw [jointValue, jointValue, hnodes, hedges]

lemma exists_score {y : Labeling} (hy : y.length = g.order) :
    ∃ psi s, g.jointVector g.kind small y = .ok psi ∧
      small.score psi (small.restrict large weights) = .ok s ∧
      g.jointVector g.kind large y = .ok (small.raised large psi) ∧
      large.score (small.raised large psi) weights = .ok s := by
  obtain ⟨psi, hpsi, -, hscore⟩ := exists_jointVector h.scored hy
  have hlarge : g.jointVector g.kind large y = .ok (small.raised large psi) := by
    rw [h.jointVector_eq, hpsi]
    rfl
  have hfits : ∀ block, ∀ v ∈ g.vectors block, large.Fits block v :=
    fun block v hv => h.grows.fits (h.kind_vector hv) (h.fits block v hv)
  have hscored : Scored large g weights := scored_of_fits (hfits .node) (hfits .edge) h.length_eq
    (h.grows.large_nonneg .node) (h.grows.large_nonneg .edge)
  refine ⟨psi, _, hpsi, hscore, hlarge, ?_⟩
  rw [(hscored.score_jointVector hlarge).2, h.jointValue_eq]

/-! ## The oracle -/

/-- The most violated constraint has the same loss, and the joint feature vector is moved. -/
lemma solve_eq (solver : Solver) (truth : Labeling) :
    solve ⟨large, solver⟩ g truth weights =
      (solve ⟨small, solver⟩ g truth (small.restrict large weights)).map fun c =>
        ⟨c.loss, small.raised large c.vector⟩ := by
  rw [solve, solve, h.findLabeling_eq]
  cases findLabeling ⟨small, solver⟩ g (small.restrict large weights) (some truth) with
  | error e => rfl
  | ok y =>
    show constraint large g truth y = (constraint small g truth y).map _
    rw [constraint, constraint, h.jointVector_eq]
    cases (Labeling.loss truth y : Except InputError Rat) with
    | error e => rfl
    | ok loss => cases g.jointVector g.kind small y <;> rfl

/-- With an edge vector for every edge and no negative edge scores there is a Potts model. -/
lemma exists_pottsModel (hcount : g.edges.pairs.length = g.edgeVectors.length)
    (hnonneg : ∀ v ∈ g.edgeVectors, ∀ s, large.blockScore .edge weights v = .ok s → 0 ≤ s)
    {truth : Option Labeling} (htruth : ∀ t ∈ truth, t.length = g.order) :
    ∃ m, pottsModel small g (small.restrict large weights) truth = .ok m := by
  refine SeparationOracle.exists_pottsModel h.scored hcount ?_ htruth
  intro v hv
  refine hnonneg v hv _ ?_
  have hedge : v ∈ g.vectors .edge := hv
  rw [h.grows.blockScore_eq h.length_eq (h.kind_vector hedge) (h.fits .edge v hedge)]
  exact h.scored.edge v hv

/-- Under a larger layout a sparse graph that fits the smaller one has the answers that it has under
the smaller one with the first weights of each block, whatever the other weights are: the same Potts
model, the same labelings of both solvers, the same loss and the same scores.  Joint feature vectors
are the same, but the terms of the node block are raised by what the edge block has grown.  Unless
an edge has a negative score or no vector, there are these answers, except that the exhaustive
search refuses too many nodes. -/
theorem raised_answers :
    (small.restrict large weights).length = small.total ∧
    (∀ truth, pottsModel large g weights truth =
      pottsModel small g (small.restrict large weights) truth) ∧
    (∀ solver truth, findLabeling ⟨large, solver⟩ g weights truth =
      findLabeling ⟨small, solver⟩ g (small.restrict large weights) truth) ∧
    (∀ y, g.jointVector g.kind large y =
      (g.jointVector g.kind small y).map (small.raised large)) ∧
    (∀ y : Labeling, y.length = g.order → ∃ psi s, g.jointVector g.kind small y = .ok psi ∧
      small.score psi (small.restrict large weights) = .ok s ∧
      g.jointVector g.kind large y = .ok (small.raised large psi) ∧
      large.score (small.raised large psi) weights = .ok s) ∧
    (∀ solver truth, solve ⟨large, solver⟩ g truth weights =
      (solve ⟨small, solver⟩ g truth (small.restrict large weights)).map fun c =>
        ⟨c.loss, small.raised large c.vector⟩) ∧
    ((∀ v ∈ g.edgeVectors, ∀ s, large.blockScore .edge weights v = .ok s → 0 ≤ s) →
      g.edges.pairs.length = g.edgeVectors.length →
      ∀ solver, (solver = .exhaustive → g.order ≤ maxSearchedNodes) →
        (∃ y, findLabeling ⟨small, solver⟩ g (small.restrict large weights) none = .ok y) ∧
        ∀ truth : Labeling, truth.length = g.order →
          ∃ c, solve ⟨small, solver⟩ g truth (small.restrict large weights) = .ok c) := by
  refine ⟨h.grows.length_restrict h.length_eq, h.pottsModel_eq, h.findLabeling_eq,
    h.jointVector_eq, fun y => h.exists_score, h.solve_eq, ?_⟩
  intro hnonneg hcount solver hsearch
  constructor
  · obtain ⟨m, hm⟩ : ∃ m, pottsModel small g (small.restrict large weights) none = .ok m :=
      h.exists_pottsModel hcount hnonneg nofun
    obtain ⟨y, hy, -⟩ := exists_labeling ⟨small, solver⟩ hm hsearch
    exact ⟨y, hy⟩
  · intro truth htruth
    have hsome : ∀ t ∈ some truth, t.length = g.order := by
      rintro _ ⟨⟩
      exact htruth
    obtain ⟨m, hm⟩ := h.exists_pottsModel hcount hnonneg hsome
    obtain ⟨y, hy, hlength⟩ := exists_labeling ⟨small, solver⟩ hm hsearch
    obtain ⟨psi, hpsi, -⟩ := exists_jointVector h.scored hlength
    exact ⟨_, SeparationOracle.solve_eq ⟨small, solver⟩ hy (htruth.trans hlength.symm) hpsi⟩

end FitsGrown

/-- Two edge weights and two node weights are added, some of them negative. -/
theorem raised_answers_loopGraph :
    FitsGrown ⟨1, 2⟩ ⟨3, 4⟩ loopGraph [1, 2, -7, 100, -3, 50, -50] ∧
      FeatureLayout.restrict ⟨1, 2⟩ ⟨3, 4⟩ [1, 2, -7, 100, -3, 50, -50] = [1, 2, -3] ∧
      loopGraph.jointVector .sparse ⟨1, 2⟩ [true, false] =
        .ok (.sparse [(2, 1), (2, 2), (1, -1 / 2), (1, -1 / 2)]) ∧
      loopGraph.jointVector .sparse ⟨3, 4⟩ [true, false] =
        .ok (.sparse [(4, 1), (4, 2), (1, -1 / 2), (1, -1 / 2)]) ∧
      ∃ c, solve ⟨⟨1, 2⟩, .minCut⟩ loopGraph [true, false] [1, 2, -3] = .ok c := by
  have h : FitsGrown ⟨1, 2⟩ ⟨3, 4⟩ loopGraph [1, 2, -7, 100, -3, 50, -50] := by
    refine ⟨⟨forall_dims_nonneg_iff.2 (by decide), ?_⟩, rfl, ?_, rfl⟩
    · intro block
      cases block <;> decide
    · intro block
      cases block <;> decide
  have hrestrict : FeatureLayout.restrict ⟨1, 2⟩ ⟨3, 4⟩ [1, 2, -7, 100, -3, 50, -50] =
      [1, 2, -3] := by decide +kernel
  have hown : loopGraph.jointVector .sparse ⟨1, 2⟩ [true, false] =
      .ok (.sparse [(2, 1), (2, 2), (1, -1 / 2), (1, -1 / 2)]) := by decide +kernel
  obtain ⟨-, -, -, hvector, -, -, hanswers⟩ := h.raised_answers
  have hnonneg : ∀ v ∈ loopGraph.edgeVectors, ∀ s, FeatureLayout.blockScore ⟨3, 4⟩ .edge
      [1, 2, -7, 100, -3, 50, -50] v = .ok s → 0 ≤ s := by
    intro v hv s hs
    have hv : v = .sparse [(1, 1 / 2), (1, 1 / 2)] ∨ v = .sparse [(0, 3)] := by
      simpa [loopGraph] using hv
    rcases hv with rfl | rfl
    · have hscore : FeatureLayout.blockScore ⟨3, 4⟩ .edge
          ([1, 2, -7, 100, -3, 50, -50] : List Rat) (.sparse [(1, 1 / 2), (1, 1 / 2)]) = .ok 2 := by
        decide +kernel
      obtain rfl : 2 = s := Except.ok.inj (hscore.symm.trans hs)
      norm_num
    · have hscore : FeatureLayout.blockScore ⟨3, 4⟩ .edge
          ([1, 2, -7, 100, -3, 50, -50] : List Rat) (.sparse [(0, 3)]) = .ok 3 := by
        decide +kernel
      obtain rfl : 3 = s := Except.ok.inj (hscore.symm.trans hs)
      norm_num
  have hsearch : Solver.minCut = .exhaustive → loopGraph.order ≤ maxSearchedNodes := by decide
  have hsolve := (hanswers hnonneg rfl .minCut hsearch).2 [true, false] rfl
  rw [hrestrict] at hsolve
  have hraised : loopGraph.jointVector .sparse ⟨3, 4⟩ [true, false] =
      (loopGraph.jointVector .sparse ⟨1, 2⟩ [true, false]).map
        (FeatureLayout.raised ⟨1, 2⟩ ⟨3, 4⟩) := hvector [true, false]
  refine ⟨h, hrestrict, hown, ?_, hsolve⟩
  rw [hraised, hown]
  decide +kernel

end LabeledGraph

end PottsOracle
