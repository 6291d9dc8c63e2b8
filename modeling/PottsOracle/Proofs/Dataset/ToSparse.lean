import PottsOracle.Proofs.Arith.Values
import PottsOracle.Proofs.Dataset.Fitting

/-!
# Dense datasets as sparse ones

A dense vector can be written with a term for every entry.  Nothing that validation checks changes by
this, with one exception: a dense edge vector is judged by its least entry, and a sparse one by all of
them.  Among entries of which one is no number none is the least, so that a negative one is hidden
(`FeatureVector.hasNegativeEntry_iff`).

So the edge vectors of an accepted dataset have no negative entry, and the dataset is accepted as a
sparse one, too, unless it hides a negative entry in this way
(`Dataset.noneNegative_iff_and_defects_toSparse`).
-/

namespace PottsOracle

variable {K : Type}

/-! ## The least entry -/

namespace Scalar

variable [Scalar K]

lemma isNaN_min_iff {x y : K} :
    isNaN (Scalar.min x y) = true ↔ isNaN x = true ∨ isNaN y = true := by
  by_cases hx : isNaN x = true
  · simp [Scalar.min, hx]
  · by_cases hy : isNaN y = true
    · simp [Scalar.min, hx, hy]
    · rw [Bool.not_eq_true] at hx hy
      simp [isNaN_min hx hy, hx, hy]

/-- If an entry is no number, neither is the least one. -/
lemma isNaN_foldl_min_iff {xs : List K} {a : K} :
    isNaN (xs.foldl Scalar.min a) = true ↔ isNaN a = true ∨ ∃ x ∈ xs, isNaN x = true := by
  induction xs generalizing a with
  | nil => simp
  | cons x xs ih => rw [List.foldl_cons, ih, isNaN_min_iff, List.exists_mem_cons_iff, or_assoc]

end Scalar

/-- What is no number is not smaller than anything. -/
lemma Binary64.lt_eq_false_of_isNaN {x : Float} (h : Scalar.isNaN x = true) (y : Float) :
    Scalar.lt x y = false := by
  rw [← Bool.not_eq_true, lt_iff]
  rintro ⟨hx, -⟩
  have hself : Scalar.eq x x = true := (eq_iff x x).2 ⟨hx, hx, rfl⟩
  rw [Scalar.isNaN, hself] at h
  cases h

/-! ## Vectors -/

namespace FeatureVector

/-- A sparse vector is judged by all its entries. -/
lemma hasNegativeEntry_of_kind [Scalar K] {v : FeatureVector K} (h : v.kind = .sparse) :
    v.hasNegativeEntry = v.values.any (Scalar.lt · 0) := by
  cases v with
  | dense entries => cases h
  | sparse terms =>
    rw [values, List.any_map]
    rfl

/-- A dense vector is found to have a negative entry only if all its entries are numbers. -/
theorem hasNegativeEntry_iff {v : FeatureVector Float} :
    v.hasNegativeEntry = true ↔
      (∃ x ∈ v.values, Scalar.lt x 0 = true) ∧
        (v.kind = .dense → ∀ x ∈ v.values, Scalar.isNaN x = false) := by
  cases v with
  | sparse terms =>
    rw [hasNegativeEntry_of_kind rfl, List.any_eq_true]
    exact (and_iff_left fun hkind => nomatch hkind).symm
  | dense entries =>
    by_cases hnumbers : ∀ x ∈ entries, Scalar.isNaN x = false
    · rw [hasNegativeEntry, Scalar.any_minimum?_lt_iff hnumbers]
      exact ⟨fun h => ⟨h, fun _ => hnumbers⟩, And.left⟩
    · refine iff_of_false ?_ fun h => hnumbers (h.2 rfl)
      -- the least entry is no number, so it is not below zero
      cases entries with
      | nil => simp [hasNegativeEntry, Scalar.minimum?]
      | cons a entries =>
        have hleast : Scalar.isNaN (entries.foldl Scalar.min a) = true := by
          rw [Scalar.isNaN_foldl_min_iff, or_iff_not_imp_left]
          simpa using hnumbers
        rw [hasNegativeEntry, Scalar.minimum?, Option.any_some,
          Binary64.lt_eq_false_of_isNaN hleast]
        exact Bool.false_ne_true

/-- The vector as a sparse one, with a term for every entry. -/
def toSparse : FeatureVector K → FeatureVector K
  | dense entries => sparse (entries.zipIdx.map fun (x, k) => ((k : ℤ), x))
  | sparse terms => sparse terms

variable {v : FeatureVector K} {dims dims' : Option ℕ}

@[simp]
lemma kind_toSparse : v.toSparse.kind = .sparse := by
  cases v <;> rfl

@[simp]
lemma values_toSparse : v.toSparse.values = v.values := by
  cases v with
  | dense entries =>
    rw [toSparse, values, values, List.map_map]
    exact List.zipIdx_map_fst 0 entries
  | sparse terms => rfl

@[simp]
lemma size_toSparse : v.toSparse.size = v.size := by
  cases v with
  | dense entries => simp [toSparse, size]
  | sparse terms => rfl

@[simp]
lemma hasNegativeIndex_toSparse : v.toSparse.hasNegativeIndex = v.hasNegativeIndex := by
  cases v with
  | dense entries => simp [toSparse, hasNegativeIndex]
  | sparse terms => rfl

/-- One more than the largest index of a dense vector is its length. -/
@[simp]
lemma extent_toSparse : v.toSparse.extent = v.extent := by
  cases v with
  | sparse terms => rfl
  | dense entries =>
    cases entries with
    | nil => rfl
    | cons x entries =>
      have hnonneg : 0 ≤ (dense (x :: entries)).toSparse.extent :=
        Int.add_nonneg ((foldl_max_le_iff _ _ _).1 le_rfl).1 zero_le_one
      refine le_antisymm ((extent_sparse_le_iff (Int.natCast_nonneg _)).2 ?_) ?_
      · intro term hterm
        obtain ⟨⟨y, k⟩, hmem, rfl⟩ := List.mem_map.1 hterm
        exact Int.ofNat_lt.2 (List.snd_lt_of_mem_zipIdx hmem)
      · have hlast : ((entries.length : ℤ), (x :: entries)[entries.length]) ∈
            (x :: entries).zipIdx.map fun (y, k) => ((k : ℤ), y) :=
          List.mem_map.2 ⟨(_, entries.length), List.mem_zipIdx_iff_getElem?.2 (by simp), rfl⟩
        exact (extent_sparse_le_iff hnonneg).1 le_rfl _ hlast

/-- A sound vector is sound as a sparse one, under any length. -/
lemma IsSound.toSparse (h : v.IsSound dims) : v.toSparse.IsSound dims' := by
  refine ⟨size_toSparse.trans_ne h.size_ne, hasNegativeIndex_toSparse.trans h.index_nonneg, ?_⟩
  cases v <;> trivial

lemma hasNegativeEntry_toSparse_eq_false_iff [Scalar K] :
    v.toSparse.hasNegativeEntry = false ↔ ∀ x ∈ v.values, Scalar.lt x 0 = false := by
  rw [hasNegativeEntry_of_kind kind_toSparse, values_toSparse, List.any_eq_false]
  simp only [Bool.not_eq_true]

end FeatureVector

/-! ## Graphs -/

namespace LabeledGraph

/-- The graph with all its vectors as sparse ones. -/
def toSparse (g : LabeledGraph K) : LabeledGraph K where
  kind := .sparse
  nodes := g.nodes.map FeatureVector.toSparse
  edges := g.edges.cast (List.length_map _).symm
  edgeVectors := g.edgeVectors.map FeatureVector.toSparse
  kind_of_mem_nodes := List.forall_mem_map.2 fun _ _ => FeatureVector.kind_toSparse
  kind_of_mem_edgeVectors := List.forall_mem_map.2 fun _ _ => FeatureVector.kind_toSparse

variable {g : LabeledGraph K} {graphs : List (LabeledGraph K)}

lemma vectors_toSparse (block : FeatureBlock) :
    g.toSparse.vectors block = (g.vectors block).map FeatureVector.toSparse := by
  cases block <;> rfl

/-- The dimensions that are inferred do not depend on how vectors are written. -/
lemma leastLayout_map_toSparse : leastLayout (graphs.map toSparse) = leastLayout graphs := by
  refine FeatureLayout.eq_of_dims_eq fun block => eq_of_forall_ge_iff fun b => ?_
  simp only [dims_leastLayout_le_iff, List.forall_mem_map, vectors_toSparse,
    FeatureVector.extent_toSparse]

end LabeledGraph

/-! ## Datasets -/

namespace Dataset

/-- The dataset with all its vectors as sparse ones. -/
def toSparse (d : Dataset K) : Dataset K where
  samples := d.samples.map (Option.map LabeledGraph.toSparse)
  labels := d.labels

/-- No edge vector has an entry below zero. -/
def NoneNegative [Scalar K] (d : Dataset K) : Prop :=
  ∀ g, some g ∈ d.samples → ∀ v ∈ g.edgeVectors, ∀ x ∈ v.values, Scalar.lt x 0 = false

/-- A negative entry of a dense edge vector is hidden by another entry, which is no number. -/
def HidesNegative [Scalar K] (d : Dataset K) : Prop :=
  ∃ g, some g ∈ d.samples ∧ ∃ entries, .dense entries ∈ g.edgeVectors ∧
    (∃ x ∈ entries, Scalar.isNaN x = true) ∧ ∃ x ∈ entries, Scalar.lt x 0 = true

variable [Scalar K] {standard : Standard} {g : LabeledGraph K} {y : Labeling}

/-- A sample without a defect has none as a sparse one, if no edge entry is negative. -/
lemma Accepted.toSparse (h : Accepted standard g y)
    (hnonneg : ∀ v ∈ g.edgeVectors, ∀ x ∈ v.values, Scalar.lt x 0 = false) :
    Accepted ⟨some .sparse, none, none⟩ g.toSparse y where
  kind_mem := rfl
  length_eq := h.length_eq.trans (List.length_map _).symm
  count_le := (List.length_map _).trans_le h.count_le
  noSelfLoop := by
    have hnone := EdgeList.hasSelfLoop_eq_false_iff.1 h.noSelfLoop
    exact EdgeList.hasSelfLoop_eq_false_iff.2 hnone
  node := List.forall_mem_map.2 fun v hv => (h.node v hv).toSparse
  edge := List.forall_mem_map.2 fun v hv =>
    ⟨(h.edge v hv).toIsSound.toSparse,
      FeatureVector.hasNegativeEntry_toSparse_eq_false_iff.2 (hnonneg v hv)⟩

variable {d : Dataset K}

/-- No edge vector of an accepted dataset is found to have a negative entry. -/
lemma hasNegativeEntry_of_defects_eq_nil (h : d.defects = .ok []) (hg : some g ∈ d.samples)
    {v : FeatureVector K} (hv : v ∈ g.edgeVectors) : v.hasNegativeEntry = false := by
  obtain ⟨hlength, -, standard, haccepted⟩ := accepted_of_defects_eq_nil h
  obtain ⟨label, hmem⟩ := exists_mem_zip hlength hg
  obtain ⟨_, y, ⟨⟩, -, hy⟩ := haccepted _ hmem
  exact (hy.edge v hv).entry_nonneg

/-- All samples of an accepted dataset are graphs. -/
lemma exists_graphs_of_defects_eq_nil (h : d.defects = .ok []) :
    ∃ graphs : List (LabeledGraph K), d.samples = graphs.map some := by
  obtain ⟨hlength, -, standard, haccepted⟩ := accepted_of_defects_eq_nil h
  have hgraph : ∀ sample ∈ d.samples, ∃ g, sample = some g := by
    intro sample hsample
    obtain ⟨label, hmem⟩ := exists_mem_zip hlength hsample
    obtain ⟨g, y, hg, -⟩ := haccepted _ hmem
    exact ⟨g, hg⟩
  obtain ⟨graphs, hgraphs⟩ := exists_forall₂ hgraph
  refine ⟨graphs, ?_⟩
  rw [← List.forall₂_eq_eq_eq, List.forall₂_map_right_iff]
  exact hgraphs

/-- An accepted dataset is accepted as a sparse one if and only if no edge entry is negative. -/
lemma defects_toSparse_eq_nil_iff (h : d.defects = .ok []) :
    d.toSparse.defects = .ok [] ↔ d.NoneNegative := by
  obtain ⟨hlength, hne, standard, haccepted⟩ := accepted_of_defects_eq_nil h
  have hzip : d.toSparse.samples.zip d.toSparse.labels =
      (d.samples.zip d.labels).map fun p => (p.1.map LabeledGraph.toSparse, p.2) :=
    List.zip_map_left
  constructor
  · intro hsparse g hg v hv
    have hfound := hasNegativeEntry_of_defects_eq_nil hsparse
      (List.mem_map_of_mem (f := Option.map LabeledGraph.toSparse) hg) (List.mem_map_of_mem hv)
    exact FeatureVector.hasNegativeEntry_toSparse_eq_false_iff.1 hfound
  · intro hnonneg
    rw [defects_eq_nil_iff_accepted, hzip]
    refine ⟨(List.length_map _).trans hlength, by simpa [toSparse] using hne,
      ⟨some .sparse, none, none⟩, List.forall_mem_map.2 ?_⟩
    intro p hp
    obtain ⟨g, y, hg, hread, hy⟩ := haccepted p hp
    have hsample : some g ∈ d.samples := hg ▸ (List.of_mem_zip hp).1
    exact ⟨g.toSparse, y, by rw [hg]; rfl, hread, hy.toSparse (hnonneg g hsample)⟩

/-- In an accepted dataset only what is no number hides a negative entry. -/
lemma noneNegative_iff {d : Dataset Float} (h : d.defects = .ok []) :
    d.NoneNegative ↔ ¬ d.HidesNegative := by
  constructor
  · rintro hnonneg ⟨g, hg, entries, hentries, -, x, hx, hneg⟩
    have hzero := hnonneg g hg _ hentries x hx
    rw [hneg] at hzero
    cases hzero
  · intro hnone g hg v hv x hx
    by_contra hneg
    have hfound := hasNegativeEntry_of_defects_eq_nil h hg hv
    rw [← Bool.not_eq_true, FeatureVector.hasNegativeEntry_iff] at hfound
    rw [Bool.not_eq_false] at hneg
    cases v with
    | sparse terms => exact hfound ⟨⟨x, hx, hneg⟩, fun hkind => nomatch hkind⟩
    | dense entries =>
      refine hnone ⟨g, hg, entries, hv, ?_, x, hx, hneg⟩
      by_contra hnumbers
      refine hfound ⟨⟨x, hx, hneg⟩, fun _ z hz => ?_⟩
      rw [← Bool.not_eq_true]
      exact fun hz' => hnumbers ⟨z, hz, hz'⟩

/-- An accepted dataset has no edge vector with an entry below zero, unless a negative entry is hidden;
and with a term for every entry it is accepted again, under the same condition.  The dimensions that are
inferred are the same in any case. -/
theorem noneNegative_iff_and_defects_toSparse (d : Dataset Float) (h : d.defects = .ok []) :
    (d.NoneNegative ↔ ¬ d.HidesNegative) ∧
      (d.toSparse.defects = .ok [] ↔ ¬ d.HidesNegative) ∧
      ∃ graphs : List (LabeledGraph Float), d.samples = graphs.map some ∧
        d.toSparse.samples = (graphs.map LabeledGraph.toSparse).map some ∧
        LabeledGraph.leastLayout (graphs.map LabeledGraph.toSparse) =
          LabeledGraph.leastLayout graphs := by
  obtain ⟨graphs, hgraphs⟩ := exists_graphs_of_defects_eq_nil h
  refine ⟨noneNegative_iff h, (defects_toSparse_eq_nil_iff h).trans (noneNegative_iff h), graphs,
    hgraphs, ?_, LabeledGraph.leastLayout_map_toSparse⟩
  rw [toSparse, hgraphs, List.map_map, List.map_map]
  rfl

/-- Two nodes and an edge between them. -/
def densePair (entries : List Float) : LabeledGraph Float where
  kind := .dense
  nodes := [.dense [1], .dense [2]]
  edges := ⟨[(1, 0)], by decide, EdgeList.distinct_pair⟩
  edgeVectors := [.dense entries]
  kind_of_mem_nodes := by simp [FeatureVector.kind]
  kind_of_mem_edgeVectors := by simp [FeatureVector.kind]

/-- The dataset of a single edge. -/
def edgeDataset (entries : List Float) : Dataset Float where
  samples := [some (densePair entries)]
  labels := [.list [.bool true, .int 0]]

/-- Beside what is no number there may be zeros with a sign and infinite entries. -/
theorem noneNegative_edgeDataset :
    (edgeDataset [Binary64.notANumber, -0.0, Binary64.infinity]).defects = .ok [] ∧
      (edgeDataset [Binary64.notANumber, -0.0, Binary64.infinity]).NoneNegative ∧
      (edgeDataset [Binary64.notANumber, -0.0, Binary64.infinity]).toSparse.defects = .ok [] := by
  have hnone : (edgeDataset [Binary64.notANumber, -0.0, Binary64.infinity]).defects = .ok [] := by
    decide +kernel
  have hnonneg : (edgeDataset [Binary64.notANumber, -0.0, Binary64.infinity]).NoneNegative := by
    intro g hg
    obtain rfl : g = densePair [Binary64.notANumber, -0.0, Binary64.infinity] := by
      simpa [edgeDataset] using hg
    decide +kernel
  obtain ⟨hiff, hsparse, -⟩ := noneNegative_iff_and_defects_toSparse _ hnone
  exact ⟨hnone, hnonneg, hsparse.2 (hiff.1 hnonneg)⟩

/-- What is no number hides the entry beside it, which is below zero. -/
theorem hidesNegative_edgeDataset :
    (edgeDataset [-1, Binary64.notANumber]).defects = .ok [] ∧
      ¬ (edgeDataset [-1, Binary64.notANumber]).NoneNegative ∧
      (edgeDataset [-1, Binary64.notANumber]).toSparse.defects =
        .ok [.edge 0 (1, 0) .negativeValue] := by
  refine ⟨by decide +kernel, ?_, by decide +kernel⟩
  intro hnonneg
  have hzero := hnonneg (densePair [-1, Binary64.notANumber]) (by simp [edgeDataset])
    (.dense [-1, Binary64.notANumber]) (by simp [densePair]) (-1) (by simp [FeatureVector.values])
  revert hzero
  decide +kernel

end Dataset

end PottsOracle
