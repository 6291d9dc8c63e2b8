import PottsOracle.Proofs.Arith.Exact
import PottsOracle.Proofs.Arith.Unpacked
import PottsOracle.Proofs.Dataset.Complete
import PottsOracle.Proofs.Dataset.Judged
import PottsOracle.Proofs.Synthetic.Generated

/-!
# Generated data are valid

What is generated follows every rule of validation, up to one: a sparse node vector leaves zeros out and
may have nothing left.  So generated data are valid if and only if they are dense or no node has zeros
only (`DataSettings.exists_isValid_generate`).  An edge vector never vanishes, because it starts with a one.

Nothing is asked of the draws.  All that is used of the scalars is that sizes and one are not negative
and one is not zero (`Scalar.HasSizes`), which holds of floats whatever is infinite or no number.
-/

namespace PottsOracle

/-! ## Sizes -/

namespace Scalar

/-- Sizes are not negative, and neither is one, which is not zero. -/
class HasSizes (K : Type) [Scalar K] : Prop where
  abs_lt_zero (x : K) : lt (abs x) 0 = false
  one_lt_zero : lt (1 : K) 0 = false
  one_eq_zero : eq (1 : K) 0 = false

instance : HasSizes Rat where
  abs_lt_zero x := by simp
  one_lt_zero := by simp
  one_eq_zero := by simp

end Scalar

namespace Binary64

open Float.Model

lemma rank_abs_nonneg (u : UnpackedFloat) : rank (.zero .positive) ≤ rank u.abs := by
  cases u <;> simp [rank, UnpackedFloat.abs, Prod.Lex.toLex_le_toLex]

end Binary64

instance : Scalar.HasSizes Float where
  abs_lt_zero x := by
    rw [← Bool.not_eq_true, Binary64.lt_iff, Binary64.unpack_abs]
    rintro ⟨-, -, h⟩
    exact (Binary64.rank_abs_nonneg _).not_gt h
  one_lt_zero := by decide +kernel
  one_eq_zero := by decide +kernel

/-! ## Vectors -/

section

variable {K : Type} [Scalar K]

namespace Scalar

lemma min_eq_or_eq (x y : K) : Scalar.min x y = x ∨ Scalar.min x y = y := by
  unfold Scalar.min
  split_ifs <;> simp

lemma foldl_min_mem (xs : List K) (a : K) : xs.foldl Scalar.min a ∈ a :: xs := by
  induction xs generalizing a with
  | nil => simp
  | cons x xs ih =>
    rcases List.mem_cons.1 (ih (Scalar.min a x)) with h | h
    · rw [List.foldl_cons, h]
      rcases min_eq_or_eq a x with h | h <;> simp [h]
    · exact List.mem_cons_of_mem a (List.mem_cons_of_mem x h)

end Scalar

namespace FeatureVector

/-- The terms of a row are its entries that are not zero, with their places. -/
lemma mem_nonzeroTerms_iff {entries : List K} {i : ℤ} {x : K} :
    (i, x) ∈ nonzeroTerms entries ↔
      ∃ k : ℕ, i = k ∧ entries[k]? = some x ∧ Scalar.eq x 0 = false := by
  simp only [nonzeroTerms, List.mem_filterMap, Prod.exists, List.mem_zipIdx_iff_getElem?]
  constructor
  · rintro ⟨y, k, hy, hterm⟩
    split at hterm
    · cases hterm
    · rename_i hzero
      cases hterm
      exact ⟨k, rfl, hy, by simpa using hzero⟩
  · rintro ⟨k, rfl, hx, hzero⟩
    refine ⟨x, k, hx, ?_⟩
    rw [hzero]
    rfl

/-- If no entry is negative, the least one is not, and no term is. -/
lemma hasNegativeEntry_vectorOf {entries : List K} (h : ∀ x ∈ entries, Scalar.lt x 0 = false)
    (kind : FeatureKind) : (Synthetic.vectorOf kind entries).hasNegativeEntry = false := by
  cases kind with
  | dense =>
    cases entries with
    | nil => rfl
    | cons x xs => exact h _ (Scalar.foldl_min_mem xs x)
  | sparse =>
    refine List.any_eq_false.2 ?_
    rintro ⟨i, x⟩ hterm
    obtain ⟨k, -, hx, -⟩ := mem_nonzeroTerms_iff.1 hterm
    simpa using h x (List.mem_of_getElem? hx)

/-- A vector of a row has something in it if it is dense or the row does not vanish. -/
lemma size_vectorOf_ne_iff {entries : List K} (hne : entries ≠ []) (kind : FeatureKind) :
    (Synthetic.vectorOf kind entries).size ≠ 0 ↔
      kind = .dense ∨ ∃ x ∈ entries, Scalar.eq x 0 = false := by
  cases kind with
  | dense => simpa [Synthetic.vectorOf, size] using hne
  | sparse =>
    have hterms : (nonzeroTerms entries) ≠ [] ↔ ∃ x ∈ entries, Scalar.eq x 0 = false := by
      constructor
      · intro h
        obtain ⟨⟨i, x⟩, hterm⟩ := List.exists_mem_of_ne_nil _ h
        obtain ⟨k, -, hx, hzero⟩ := mem_nonzeroTerms_iff.1 hterm
        exact ⟨x, List.mem_of_getElem? hx, hzero⟩
      · rintro ⟨x, hx, hzero⟩
        obtain ⟨k, hk⟩ := List.mem_iff_getElem?.1 hx
        exact List.ne_nil_of_mem (mem_nonzeroTerms_iff.2 ⟨k, rfl, hk, hzero⟩)
    simpa [Synthetic.vectorOf, size] using hterms

lemma hasNegativeIndex_vectorOf (kind : FeatureKind) (entries : List K) :
    (Synthetic.vectorOf kind entries).hasNegativeIndex = false := by
  cases kind with
  | dense => rfl
  | sparse =>
    refine List.any_eq_false.2 ?_
    rintro ⟨i, x⟩ hterm
    obtain ⟨k, rfl, -⟩ := mem_nonzeroTerms_iff.1 hterm
    simp

/-- The vector of a row is sound if and only if it is dense or the row does not vanish. -/
lemma isSound_vectorOf_iff {entries : List K} {n : ℕ} (hlength : entries.length = n) (hn : 0 < n)
    (kind : FeatureKind) :
    (Synthetic.vectorOf kind entries).IsSound (some n) ↔
      kind = .dense ∨ ∃ x ∈ entries, Scalar.eq x 0 = false := by
  have hne : entries ≠ [] := List.ne_nil_of_length_pos (hlength ▸ hn)
  rw [← size_vectorOf_ne_iff hne]
  refine ⟨IsSound.size_ne, fun hsize => ⟨hsize, hasNegativeIndex_vectorOf kind entries, ?_⟩⟩
  cases kind with
  | dense => exact congrArg some hlength.symm
  | sparse => trivial

end FeatureVector

/-! ## Labels and samples -/

/-- Truth values are no texts. -/
lemma NumberForm.ofLeaves_bools (y : Labeling) :
    NumberForm.ofLeaves (y.map .bool) ≠ .text := by
  have hjoin : ∀ bs : Labeling, ((bs.map Value.bool).map ofValue).foldl join truth = truth := by
    intro bs
    induction bs with
    | nil => rfl
    | cons b bs ih => exact ih
  cases y with
  | nil => simp [ofLeaves]
  | cons b bs =>
    have htruth : NumberForm.ofLeaves ((b :: bs).map .bool) = truth := hjoin bs
    rw [htruth]
    decide

lemma Labeling.ofLeaves_bools (y : Labeling) : Labeling.ofLeaves (y.map .bool) = y := by
  rw [ofLeaves, if_neg (NumberForm.ofLeaves_bools y), List.map_map]
  exact List.map_id y

/-- Labels are read back from their value. -/
lemma Labeling.read_labelValue (y : Labeling) :
    Labeling.read (Dataset.labelValue y) = .ok y := by
  have hflat : ∀ item ∈ y.map Value.bool, ∀ inner, item ≠ .list inner := by
    intro item hitem inner
    obtain ⟨b, -, rfl⟩ := List.mem_map.1 hitem
    simp
  have hrow : (Dataset.labelValue y).IsRow y.length := ⟨_, rfl, List.length_map _, hflat⟩
  have hleaves : (Dataset.labelValue y).leaves = y.map Value.bool := by
    rw [Dataset.labelValue, Value.leaves, Value.leavesOfItems_eq hflat]
  rw [Labeling.read, Value.shape?_eq_singleton_iff.2 hrow, hleaves]
  exact congrArg Except.ok (ofLeaves_bools y)

namespace Dataset

variable {drawn : List (Sample K)}

omit [Scalar K] in
lemma zip_ofSamples : (ofSamples drawn).samples.zip (ofSamples drawn).labels =
    drawn.map fun s => (some s.graph, labelValue s.truth) :=
  List.zip_map'

/-- Samples have no defects if there are some and all of them follow one standard. -/
lemma defects_ofSamples_eq_nil_iff : (ofSamples drawn).defects = .ok [] ↔
    drawn ≠ [] ∧ ∃ standard, ∀ s ∈ drawn, Accepted standard s.graph s.truth := by
  rw [defects_eq_nil_iff_accepted, zip_ofSamples]
  simp [ofSamples, Labeling.read_labelValue]

end Dataset

/-! ## Rows -/

namespace Synthetic

variable {g : Generator K} {draws : Draws K} {row : List K} {s : Sample K}

lemma length_of_mem_nodeRows (h : row ∈ nodeRows g draws) : row.length = g.nodeDims := by
  obtain ⟨i, -, rfl⟩ := List.mem_map.1 h
  simp

lemma length_of_mem_edgeRows (h : row ∈ edgeRows g draws) : row.length = g.edgeDims := by
  obtain ⟨e, -, rfl⟩ := List.mem_map.1 h
  simp

/-- No row of a node vanishes if and only if every node has an entry that is not zero. -/
lemma forall_mem_nodeRows_iff : (∀ row ∈ nodeRows g draws, ∃ x ∈ row, Scalar.eq x 0 = false) ↔
    ∀ i < g.nodes, ∃ k < g.nodeDims, Scalar.eq (nodeEntry g.noise (nextLabel draws i) k
      (draws.normal.entry g.nodeDims i k)) 0 = false := by
  simp [nodeRows]

/-- An entry of an edge is one or a size. -/
lemma lt_zero_edgeEntry [Scalar.HasSizes K] (noise : K) (place : ℕ) (draw : K) :
    Scalar.lt (edgeEntry noise place draw) 0 = false := by
  rw [edgeEntry]
  split_ifs
  · exact Scalar.HasSizes.one_lt_zero
  · exact Scalar.HasSizes.abs_lt_zero _

/-- The vector of an edge is sound, because it has no negative entry and starts with a one. -/
lemma isSoundEdge_of_mem_edgeRows [Scalar.HasSizes K] (hdims : 0 < g.edgeDims)
    (h : row ∈ edgeRows g draws) : (vectorOf g.kind row).IsSoundEdge (some g.edgeDims) := by
  have hlength := length_of_mem_edgeRows h
  obtain ⟨e, -, rfl⟩ := List.mem_map.1 h
  refine ⟨(FeatureVector.isSound_vectorOf_iff hlength hdims g.kind).2
    (Or.inr ⟨1, ?_, Scalar.HasSizes.one_eq_zero⟩), FeatureVector.hasNegativeEntry_vectorOf ?_ _⟩
  · exact List.mem_map.2 ⟨0, List.mem_range.2 hdims, rfl⟩
  · intro x hx
    obtain ⟨k, -, rfl⟩ := List.mem_map.1 hx
    exact lt_zero_edgeEntry _ _ _

/-! ## Samples -/

/-- A sample that is drawn follows the standard of its generator, unless a sparse row vanishes. -/
lemma IsDrawn.accepted [Scalar.HasSizes K] (h : IsDrawn g draws s) (hnode : 0 < g.nodeDims)
    (hedge : 0 < g.edgeDims)
    (hrows : g.kind = .dense ∨ ∀ row ∈ nodeRows g draws, ∃ x ∈ row, Scalar.eq x 0 = false) :
    Dataset.Accepted ⟨some g.kind, some g.nodeDims, some g.edgeDims⟩ s.graph s.truth where
  kind_mem := congrArg some h.kind_eq.symm
  length_eq := by
    rw [h.truth_eq, length_nextLabels, h.order_eq]
  count_le := h.count_eq.ge
  noSelfLoop := by
    rw [EdgeList.hasSelfLoop_eq_false_iff, h.pairs_eq]
    exact fun e he => (lt_of_mem_sampleEdges he).1.ne
  node := by
    rw [h.nodes_eq]
    intro v hv
    obtain ⟨row, hrow, rfl⟩ := List.mem_map.1 hv
    exact (FeatureVector.isSound_vectorOf_iff (length_of_mem_nodeRows hrow) hnode g.kind).2
      (hrows.imp_right fun hall => hall row hrow)
  edge := by
    rw [h.edgeVectors_eq]
    intro v hv
    obtain ⟨row, hrow, rfl⟩ := List.mem_map.1 hv
    exact isSoundEdge_of_mem_edgeRows hedge hrow

/-- No sparse row of an accepted sample vanishes. -/
lemma IsDrawn.exists_ne_of_accepted {standard : Standard} (h : IsDrawn g draws s)
    (hnode : 0 < g.nodeDims) (haccepted : Dataset.Accepted standard s.graph s.truth)
    (hrow : row ∈ nodeRows g draws) : g.kind = .dense ∨ ∃ x ∈ row, Scalar.eq x 0 = false := by
  have hne : row ≠ [] := List.ne_nil_of_length_pos ((length_of_mem_nodeRows hrow).symm ▸ hnode)
  refine (FeatureVector.size_vectorOf_ne_iff hne g.kind).1 ?_
  refine (haccepted.node _ ?_).size_ne
  rw [h.nodes_eq]
  exact List.mem_map_of_mem hrow

/-! ## All samples -/

/-- Samples that are drawn are judged, and they are valid if and only if they are dense or no row of a
node vanishes. -/
lemma exists_isValid_of_drawn [Scalar.HasSizes K] {starts : List (Draws K)}
    {drawn : List (Sample K)} (h : List.Forall₂ (IsDrawn g) starts drawn) (hne : drawn ≠ [])
    (hnode : 0 < g.nodeDims) (hedge : 0 < g.edgeDims) :
    ∃ valid, (Dataset.ofSamples drawn).isValid = .ok valid ∧
      (valid = true ↔ g.kind = .dense ∨
        ∀ start ∈ starts, ∀ row ∈ nodeRows g start, ∃ x ∈ row, Scalar.eq x 0 = false) := by
  have hcount : ∀ s ∈ drawn, s.graph.edgeVectors.length ≤ s.graph.edges.pairs.length :=
    forall_mem_of_forall₂ h fun start _ s hs => hs.count_eq.ge
  obtain ⟨valid, hvalid⟩ := (Dataset.exists_isValid_iff (Dataset.ofSamples drawn)).2 <| by
    intro _ graph hgraph _
    obtain ⟨s, hs, hgraph⟩ := List.mem_map.1 hgraph
    obtain rfl := Option.some.inj hgraph
    exact hcount s hs
  refine ⟨valid, hvalid, ?_⟩
  rw [Dataset.eq_true_iff_of_isValid hvalid, Dataset.defects_ofSamples_eq_nil_iff]
  constructor
  · -- whatever the standard is, an accepted vector is not empty
    rintro ⟨-, standard, haccepted⟩
    by_cases hkind : g.kind = .dense
    · exact Or.inl hkind
    · refine Or.inr (forall_mem_of_forall₂ h.flip ?_)
      intro s hmem start hs row hrow
      exact (hs.exists_ne_of_accepted hnode (haccepted s hmem) hrow).resolve_left hkind
  · -- the first sample sets the standard that all samples of the generator meet
    intro hrows
    refine ⟨hne, ⟨some g.kind, some g.nodeDims, some g.edgeDims⟩, forall_mem_of_forall₂ h ?_⟩
    intro start hstart s hs
    exact hs.accepted hnode hedge (hrows.imp_right fun hall => hall start hstart)

end Synthetic

end

/-! ## Settings -/

namespace DataSettings

open Synthetic

/-- Data that are generated from settings with integers for sizes and floats for everything else are one
sample after the other, and each of them holds its draws.  They are valid if and only if they are dense or
no node has zeros only, where its entries are noise times draws, with one added in the first place for a true
node and in the second place for a false node.  Draws can be any floats. -/
theorem exists_isValid_generate (s : DataSettings) (samples nodes nodeDims edgeDims : ℤ)
    (pSame pDiff noise : Float) (hsamples : s.samples = .int samples) (hnodes : s.nodes = .int nodes)
    (hnodeDims : s.nodeDims = .int nodeDims) (hedgeDims : s.edgeDims = .int edgeDims)
    (hsame : s.pSame = .float pSame) (hdiff : s.pDiff = .float pDiff) (hnoise : s.noise = .float noise)
    (draws : Draws Float) :
    ∃ g drawn, s.generator = .ok g ∧
      g = ⟨samples.toNat, nodes.toNat, nodeDims.toNat, edgeDims.toNat, pSame, pDiff, noise,
        s.representation⟩ ∧
      generate g draws = .ok drawn ∧ drawn.length = samples ∧
      (∀ x ∈ drawn, x.graph.kind = s.representation ∧ x.graph.order = nodes ∧
        x.truth.length = nodes) ∧
      List.Forall₂ (IsDrawn g) (List.iterate (rest g) draws g.samples) drawn ∧
      ∃ valid, (Dataset.ofSamples drawn).isValid = .ok valid ∧
        (valid = true ↔ s.representation = .dense ∨
          ∀ start ∈ List.iterate (rest g) draws g.samples, ∀ i < g.nodes, ∃ k < g.nodeDims,
            Scalar.eq (nodeEntry noise (nextLabel start i) k
              (start.normal.entry g.nodeDims i k)) 0 = false) := by
  have hg : s.generator = .ok ⟨samples.toNat, nodes.toNat, nodeDims.toNat, edgeDims.toNat, pSame,
      pDiff, noise, s.representation⟩ := by
    rw [generator, hsamples, hnodes, hnodeDims, hedgeDims, hsame, hdiff, hnoise]
    rfl
  have honeSamples : 1 ≤ samples := by simpa [hsamples, Number.lessThan] using s.one_le_samples
  have honeNodes : 1 ≤ nodes := by simpa [hnodes, Number.lessThan] using s.one_le_nodes
  have htwoDims : 1 < nodeDims := by simpa [hnodeDims, Number.lessThan] using s.two_le_nodeDims
  have honeDims : 1 ≤ edgeDims := by simpa [hedgeDims, Number.lessThan] using s.one_le_edgeDims
  obtain ⟨drawn, hdrawn, hall⟩ := exists_samples (g := ⟨samples.toNat, nodes.toNat, nodeDims.toNat,
    edgeDims.toNat, pSame, pDiff, noise, s.representation⟩) samples.toNat draws
  have hlength : (drawn.length : ℤ) = samples := by
    rw [← hall.length_eq, List.length_iterate]
    omega
  have hnode : 0 < nodeDims.toNat := by omega
  have hedge : 0 < edgeDims.toNat := by omega
  obtain ⟨valid, hvalid, hiff⟩ := exists_isValid_of_drawn hall
    (List.ne_nil_of_length_pos (by omega)) hnode hedge
  refine ⟨_, drawn, hg, rfl, hdrawn, hlength, ?_, hall, valid, hvalid, hiff.trans ?_⟩
  · refine forall_mem_of_forall₂ hall fun start _ x hx => ⟨hx.kind_eq, ?_, ?_⟩
    · rw [hx.order_eq]
      exact Int.toNat_of_nonneg (by omega)
    · rw [hx.truth_eq, length_nextLabels]
      exact Int.toNat_of_nonneg (by omega)
  · exact or_congr_right (forall₂_congr fun start _ => forall_mem_nodeRows_iff)

/-- Sparse data with one graph of two nodes. -/
def vanishing : DataSettings where
  samples := .int 1
  nodes := .int 2
  nodeDims := .int 2
  edgeDims := .int 1
  pSame := .float 1
  pDiff := .float 0
  noise := .float 0.5
  representation := .sparse
  one_le_samples := by decide
  one_le_nodes := by decide
  two_le_nodeDims := by decide
  one_le_edgeDims := by decide
  pSame_inUnit := by decide +kernel
  pDiff_inUnit := by decide +kernel
  zero_le_noise := by decide +kernel

/-- Draws that make both nodes true and their noise cancel the one that is added. -/
def vanishingDraws : Draws Float := ⟨.ofCycle [0.25], .ofCycle [-2, 0]⟩

theorem isValid_generate_vanishing :
    ∃ g drawn, vanishing.generator = .ok g ∧ generate g vanishingDraws = .ok drawn ∧
      (Dataset.ofSamples drawn).isValid = .ok false := by
  obtain ⟨g, drawn, hg, rfl, hdrawn, -, -, -, valid, hvalid, hiff⟩ := exists_isValid_generate
    vanishing 1 2 2 1 1 0 0.5 rfl rfl rfl rfl rfl rfl rfl vanishingDraws
  refine ⟨_, drawn, hg, hdrawn, ?_⟩
  have hfalse : ¬ valid = true := by
    rw [hiff]
    decide +kernel
  rw [hvalid, Bool.of_not_eq_true hfalse]

end DataSettings

end PottsOracle
