import PottsOracle.Proofs.Arith.Ordered
import PottsOracle.Proofs.Dataset.Complete
import PottsOracle.Proofs.Graph.Neighbourhood
import PottsOracle.Proofs.Input.Nesting
import PottsOracle.Proofs.Oracle.Ready

/-!
# Valid datasets

`Dataset.WellFormed` says what a valid dataset is, about the dataset as a whole and without a
validation.  Validation finds nothing wrong if and only if a dataset is valid
(`Dataset.defects_eq_nil_iff`).  This needs numbers: among entries that are no numbers a negative
one can be missed.  The scalars may be floats as well as rationals.

The common standard of validation and the single conditions are the same thing.  What a standard
sets is read off the dataset, and each check is read in words of lists.
-/

namespace PottsOracle

variable {K : Type}

/-! ## Labels -/

/-- Exactly rows are read as labelings, and they have a label for every item. -/
lemma Labeling.exists_read_iff {v : Value} {n : Nat} :
    (∃ y, Labeling.read v = .ok y ∧ y.length = n) ↔ v.IsRow n := by
  have hlength : ∀ leaves, (Labeling.ofLeaves leaves).length = leaves.length := by
    intro leaves
    rw [Labeling.ofLeaves]
    split <;> exact List.length_map _
  constructor
  · rintro ⟨y, hread, rfl⟩
    rw [Labeling.read] at hread
    split at hread
    · cases hread
    · rename_i m hshape
      cases hread
      have hrow := Value.shape?_eq_singleton_iff.1 hshape
      rwa [hlength, hrow.length_leaves]
    · cases hread
  · intro hrow
    refine ⟨Labeling.ofLeaves v.leaves, ?_, (hlength _).trans hrow.length_leaves⟩
    rw [Labeling.read, Value.shape?_eq_singleton_iff.2 hrow]

/-! ## Vectors -/

namespace FeatureVector

/-- The entries that are stored. -/
def values : FeatureVector K → List K
  | dense entries => entries
  | sparse terms => terms.map (·.2)

/-- The indices that are written out. -/
def indices : FeatureVector K → List ℤ
  | dense _ => []
  | sparse terms => terms.map (·.1)

lemma hasNegativeIndex_eq_false_iff {v : FeatureVector K} :
    v.hasNegativeIndex = false ↔ ∀ i ∈ v.indices, 0 ≤ i := by
  cases v with
  | dense entries => simp [hasNegativeIndex, indices]
  | sparse terms => simp [hasNegativeIndex, indices]

variable [Scalar K] [Scalar.IsOrdered K]

/-- A dense vector is judged by its least entry, which is enough if all entries are numbers. -/
lemma hasNegativeEntry_eq_false_iff {v : FeatureVector K}
    (h : ∀ x ∈ v.values, Scalar.isNaN x = false) :
    v.hasNegativeEntry = false ↔ ∀ x ∈ v.values, Scalar.lt x 0 = false := by
  cases v with
  | dense entries =>
    have hleast := Scalar.any_minimum?_lt_iff h 0
    rw [values] at hleast ⊢
    rw [hasNegativeEntry, ← Bool.not_eq_true, hleast]
    simp
  | sparse terms =>
    rw [values, List.forall_mem_map]
    simp [hasNegativeEntry]

end FeatureVector

/-! ## Datasets -/

namespace Dataset

variable [Scalar K]

/-- A valid dataset. -/
structure WellFormed (d : Dataset K) : Prop where
  length_eq : d.samples.length = d.labels.length
  nonempty : d.samples ≠ []
  isGraph : none ∉ d.samples
  oneKind : ∃ kind, ∀ g, some g ∈ d.samples → g.kind = kind
  /-- There is one label for every node. -/
  labeled : ∀ g label, (some g, label) ∈ d.samples.zip d.labels → label.IsRow g.order
  noSelfLoop : ∀ g, some g ∈ d.samples → ∀ e ∈ g.edges.pairs, e.1 ≠ e.2
  size_ne : ∀ g, some g ∈ d.samples → ∀ block, ∀ v ∈ g.vectors block, v.size ≠ 0
  entry_nonneg : ∀ g, some g ∈ d.samples → ∀ v ∈ g.edgeVectors, ∀ x ∈ v.values,
    Scalar.lt x 0 = false
  index_nonneg : ∀ g, some g ∈ d.samples → ∀ block, ∀ v ∈ g.vectors block, ∀ i ∈ v.indices, 0 ≤ i
  /-- Dense vectors of one sort are equally long. -/
  oneLength : ∀ block, ∃ n, ∀ g, some g ∈ d.samples →
    ∀ entries, .dense entries ∈ g.vectors block → entries.length = n

variable {d : Dataset K} {g : LabeledGraph K}

omit [Scalar K] in
/-- Every sample stands beside its labels. -/
lemma exists_mem_zip {sample : Option (LabeledGraph K)}
    (hlength : d.samples.length = d.labels.length) (h : sample ∈ d.samples) :
    ∃ label, (sample, label) ∈ d.samples.zip d.labels := by
  rw [← List.map_fst_zip hlength.le] at h
  obtain ⟨⟨_, label⟩, hmem, rfl⟩ := List.mem_map.1 h
  exact ⟨label, hmem⟩

omit [Scalar K] in
/-- A vector without flaws is sound under the length of its sort. -/
lemma isSound_of_length {v : FeatureVector K} {n : Nat} (hsize : v.size ≠ 0)
    (hindex : ∀ i ∈ v.indices, 0 ≤ i) (hlength : ∀ entries, v = .dense entries → entries.length = n) :
    v.IsSound (some n) := by
  refine ⟨hsize, FeatureVector.hasNegativeIndex_eq_false_iff.2 hindex, ?_⟩
  cases v with
  | dense entries => exact congrArg some (hlength entries rfl).symm
  | sparse terms => trivial

variable [Scalar.IsOrdered K]

/-- Samples that follow a standard make a valid dataset. -/
lemma wellFormed_of_accepted {standard : Standard}
    (hnumbers : ∀ g, some g ∈ d.samples → ∀ v ∈ g.edgeVectors, ∀ x ∈ v.values,
      Scalar.isNaN x = false)
    (hlength : d.samples.length = d.labels.length) (hne : d.samples ≠ [])
    (h : ∀ p ∈ d.samples.zip d.labels, ∃ g y, p.1 = some g ∧
      Labeling.read p.2 = .ok y ∧ Accepted standard g y) : d.WellFormed := by
  have haccepted : ∀ g, some g ∈ d.samples → ∃ y, Accepted standard g y := by
    intro g hg
    obtain ⟨label, hmem⟩ := exists_mem_zip hlength hg
    obtain ⟨_, y, ⟨⟩, -, hy⟩ := h _ hmem
    exact ⟨y, hy⟩
  have hsound : ∀ block, ∀ g, some g ∈ d.samples → ∀ v ∈ g.vectors block,
      v.IsSound (standard.dims block) :=
    fun block g hg v hv => (haccepted g hg).choose_spec.isSound hv
  refine ⟨hlength, hne, ?_, ⟨standard.kind.getD .dense, ?_⟩, ?_, ?_, ?_, ?_, ?_, ?_⟩
  · intro hnone
    obtain ⟨label, hmem⟩ := exists_mem_zip hlength hnone
    obtain ⟨g, y, hg, -⟩ := h _ hmem
    cases hg
  · intro g hg
    obtain ⟨y, hy⟩ := haccepted g hg
    rw [Option.mem_def.1 hy.kind_mem, Option.getD_some]
  · intro g label hmem
    obtain ⟨_, y, ⟨⟩, hread, hy⟩ := h _ hmem
    exact Labeling.exists_read_iff.1 ⟨y, hread, hy.length_eq⟩
  · intro g hg
    obtain ⟨y, hy⟩ := haccepted g hg
    exact EdgeList.hasSelfLoop_eq_false_iff.1 hy.noSelfLoop
  · exact fun g hg block v hv => (hsound block g hg v hv).size_ne
  · intro g hg v hv
    obtain ⟨y, hy⟩ := haccepted g hg
    exact (FeatureVector.hasNegativeEntry_eq_false_iff (hnumbers g hg v hv)).1
      (hy.edge v hv).entry_nonneg
  · intro g hg block v hv
    exact FeatureVector.hasNegativeIndex_eq_false_iff.1 (hsound block g hg v hv).index_nonneg
  · intro block
    refine ⟨(standard.dims block).getD 0, ?_⟩
    intro g hg entries hentries
    have hset : standard.dims block = some entries.length := (hsound block g hg _ hentries).hasLength
    rw [hset, Option.getD_some]

/-- The samples of a valid dataset follow a standard. -/
lemma WellFormed.exists_accepted (h : d.WellFormed)
    (hcount : ∀ g, some g ∈ d.samples → g.edgeVectors.length ≤ g.edges.pairs.length)
    (hnumbers : ∀ g, some g ∈ d.samples → ∀ v ∈ g.edgeVectors, ∀ x ∈ v.values,
      Scalar.isNaN x = false) :
    ∃ standard, ∀ p ∈ d.samples.zip d.labels, ∃ g y, p.1 = some g ∧
      Labeling.read p.2 = .ok y ∧ Accepted standard g y := by
  obtain ⟨kind, hkind⟩ := h.oneKind
  obtain ⟨nodeDims, hnodeDims⟩ := h.oneLength .node
  obtain ⟨edgeDims, hedgeDims⟩ := h.oneLength .edge
  refine ⟨⟨kind, nodeDims, edgeDims⟩, ?_⟩
  rintro ⟨sample, label⟩ hmem
  have hsample : sample ∈ d.samples := (List.of_mem_zip hmem).1
  cases sample with
  | none => exact absurd hsample h.isGraph
  | some g =>
    obtain ⟨y, hread, hy⟩ := Labeling.exists_read_iff.2 (h.labeled g label hmem)
    refine ⟨g, y, rfl, hread, ?_, hy, hcount g hsample, ?_, ?_, ?_⟩
    · rw [hkind g hsample]
      rfl
    · exact EdgeList.hasSelfLoop_eq_false_iff.2 (h.noSelfLoop g hsample)
    · intro v hv
      exact isSound_of_length (h.size_ne g hsample .node v hv) (h.index_nonneg g hsample .node v hv)
        fun entries heq => hnodeDims g hsample entries (heq ▸ hv)
    · intro v hv
      refine ⟨isSound_of_length (h.size_ne g hsample .edge v hv) (h.index_nonneg g hsample .edge v hv)
        fun entries heq => hedgeDims g hsample entries (heq ▸ hv), ?_⟩
      exact (FeatureVector.hasNegativeEntry_eq_false_iff (hnumbers g hsample v hv)).2
        (h.entry_nonneg g hsample v hv)

/-- Validation finds nothing wrong with a dataset if and only if it is valid.  Every graph has been
built from an edge list, and all entries of edge vectors are numbers. -/
theorem defects_eq_nil_iff (d : Dataset K) (hbuilt : ∀ g, some g ∈ d.samples → g.IsBuilt)
    (hnumbers : ∀ g, some g ∈ d.samples → ∀ v ∈ g.edgeVectors, ∀ x ∈ v.values,
      Scalar.isNaN x = false) :
    d.defects = .ok [] ↔ d.WellFormed := by
  rw [defects_eq_nil_iff_accepted]
  constructor
  · rintro ⟨hlength, hne, standard, h⟩
    exact wellFormed_of_accepted hnumbers hlength hne h
  · intro h
    exact ⟨h.length_eq, h.nonempty,
      h.exists_accepted (fun g hg => (hbuilt g hg).count_eq.ge) hnumbers⟩

/-- Two nodes and an edge, with floats.  A node may have an entry that is no number, an edge may have
a negative zero and an infinite entry. -/
def floatGraph : LabeledGraph Float where
  kind := .dense
  nodes := [.dense [Binary64.notANumber, -1], .dense [0, 2]]
  edges := ⟨[(1, 0)], by decide, EdgeList.distinct_pair⟩
  edgeVectors := [.dense [-0.0, Binary64.infinity, 3]]
  kind_of_mem_nodes := by simp [FeatureVector.kind]
  kind_of_mem_edgeVectors := by simp [FeatureVector.kind]

/-- A graph without nodes. -/
def voidGraph : LabeledGraph Float where
  kind := .dense
  nodes := []
  edges := ⟨[], by decide, EdgeList.distinct_nil⟩
  edgeVectors := []
  kind_of_mem_nodes := by simp
  kind_of_mem_edgeVectors := by simp

/-- Two samples, with labels in several forms. -/
def floatDataset : Dataset Float where
  samples := [some floatGraph, some voidGraph]
  labels := [.list [.bool true, .null], .list []]

theorem wellFormed_floatDataset :
    (∀ g, some g ∈ floatDataset.samples → g.IsBuilt) ∧
      (∀ g, some g ∈ floatDataset.samples → ∀ v ∈ g.edgeVectors, ∀ x ∈ v.values,
        Scalar.isNaN x = false) ∧
      floatDataset.defects = .ok [] ∧ floatDataset.WellFormed := by
  have hbuilt : ∀ g, some g ∈ floatDataset.samples → g.IsBuilt := by
    intro g hg
    have hg : g = floatGraph ∨ g = voidGraph := by simpa [floatDataset] using hg
    rcases hg with rfl | rfl
    · exact ⟨.dense, floatGraph.nodes, [(1, 0)], floatGraph.edgeVectors, rfl⟩
    · exact ⟨.dense, [], [], [], rfl⟩
  have hnumbers : ∀ g, some g ∈ floatDataset.samples → ∀ v ∈ g.edgeVectors, ∀ x ∈ v.values,
      Scalar.isNaN x = false := by
    intro g hg
    have hg : g = floatGraph ∨ g = voidGraph := by simpa [floatDataset] using hg
    rcases hg with rfl | rfl
    · decide +kernel
    · decide +kernel
  have hnone : floatDataset.defects = .ok [] := by decide +kernel
  exact ⟨hbuilt, hnumbers, hnone, (defects_eq_nil_iff floatDataset hbuilt hnumbers).1 hnone⟩

end Dataset

end PottsOracle
