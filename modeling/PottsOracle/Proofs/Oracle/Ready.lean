import PottsOracle.Proofs.Feature.LeastLayout
import PottsOracle.Proofs.Graph.Neighbourhood
import PottsOracle.Oracle.Problem

/-!
# Problems are ready for queries

A problem only comes from a dataset without defects, so its samples share a representation, have a
label for every node, and fit its layout (`Problem.isReady_of_ofDataset`).  Queries need no more
than this, whatever dataset a problem was made of.
-/

namespace PottsOracle

variable {K : Type} [Scalar K]

/-- The graph was built from an edge list. -/
def LabeledGraph.IsBuilt (g : LabeledGraph K) : Prop :=
  ∃ kind nodes pairs edgeVectors, LabeledGraph.ofEdges kind nodes pairs edgeVectors = .ok g

omit [Scalar K] in
/-- A graph that was built from an edge list has a vector for every edge. -/
lemma LabeledGraph.IsBuilt.count_eq {g : LabeledGraph K} (h : g.IsBuilt) :
    g.edges.pairs.length = g.edgeVectors.length := by
  obtain ⟨kind, nodes, pairs, edgeVectors, h⟩ := h
  obtain ⟨hcount, -, -, rfl, rfl⟩ := LabeledGraph.ofEdges_eq_ok h
  rwa [EdgeList.length_integers] at hcount

namespace Problem

/-- All samples fit the problem. -/
structure IsReady (p : Problem K) : Prop where
  kind_eq : ∀ s ∈ p.samples, s.graph.kind = p.kind
  length_eq : ∀ s ∈ p.samples, s.truth.length = s.graph.order
  fits : ∀ s ∈ p.samples, ∀ block, ∀ v ∈ s.graph.vectors block, p.layout.Fits block v
  dims_nonneg : ∀ block, 0 ≤ p.layout.dims block
  entry_nonneg : ∀ s ∈ p.samples, ∀ v ∈ s.graph.edgeVectors, v.hasNegativeEntry = false

omit [Scalar K] in
lemma exists_of_mem_samplesOf {d : Dataset K} {s : Sample K} (h : s ∈ samplesOf d) :
    (some s.graph) ∈ d.samples ∧ ∃ p ∈ d.samples.zip d.labels,
      p.1 = some s.graph ∧ Labeling.read p.2 = .ok s.truth := by
  obtain ⟨⟨sample, label⟩, hmem, hsome⟩ := List.mem_filterMap.1 h
  cases sample with
  | none => cases hsome
  | some g =>
    cases hread : Labeling.read label with
    | error e =>
      simp only [hread] at hsome
      cases hsome
    | ok y =>
      simp only [hread] at hsome
      cases hsome
      exact ⟨(List.of_mem_zip hmem).1, _, hmem, rfl, hread⟩

/-- What a problem is made of. -/
lemma ofDataset_eq_ok {d : Dataset K} {solver : Solver} {p : Problem K}
    (h : ofDataset d solver = .ok p) :
    d.defects = .ok [] ∧ p.samples = samplesOf d ∧ p.solver = solver ∧
      p.kind = ((p.samples.map (·.graph)).head?.map (·.kind)).getD .dense ∧
      p.layout = LabeledGraph.leastLayout (p.samples.map (·.graph)) := by
  obtain ⟨defects, hdefects, h⟩ := bind_eq_ok_iff.1 h
  rw [mapError_eq_ok_iff] at hdefects
  split at h
  · rename_i hnil
    cases h
    exact ⟨hnil ▸ hdefects, rfl, rfl, rfl, rfl⟩
  · cases h

/-- The samples of a problem have no defects. -/
lemma exists_standard {d : Dataset K} {solver : Solver} {p : Problem K}
    (h : ofDataset d solver = .ok p) :
    ∃ standard, ∀ s ∈ p.samples, Dataset.Accepted standard s.graph s.truth := by
  obtain ⟨hdefects, hsamples, -⟩ := ofDataset_eq_ok h
  obtain ⟨-, -, standard, hstandard⟩ := Dataset.accepted_of_defects_eq_nil hdefects
  refine ⟨standard, ?_⟩
  intro s hs
  obtain ⟨-, pair, hpair, hgraph, hread⟩ := exists_of_mem_samplesOf (hsamples ▸ hs)
  obtain ⟨g, y, hg, hy, haccepted⟩ := hstandard pair hpair
  rw [hgraph, Option.some.injEq] at hg
  rw [hread, Except.ok.injEq] at hy
  rw [hg, hy]
  exact haccepted

omit [Scalar K] in
/-- If all samples have one representation, it is that of the first one. -/
lemma kind_eq_head {samples : List (Sample K)} {kind : Option FeatureKind}
    (h : ∀ s ∈ samples, s.graph.kind ∈ kind) {s : Sample K} (hs : s ∈ samples) :
    s.graph.kind = ((samples.map (·.graph)).head?.map (·.kind)).getD .dense := by
  cases samples with
  | nil => cases hs
  | cons first rest => exact Option.mem_unique (h s hs) (h first List.mem_cons_self)

/-- The problem of a dataset without defects is ready. -/
theorem isReady_of_ofDataset {d : Dataset K} {solver : Solver} {p : Problem K}
    (h : ofDataset d solver = .ok p) : p.IsReady := by
  obtain ⟨standard, haccepted⟩ := exists_standard h
  obtain ⟨-, -, -, hkind, hlayout⟩ := ofDataset_eq_ok h
  have hkinds : ∀ s ∈ p.samples, s.graph.kind = p.kind := by
    intro s hs
    rw [hkind]
    exact kind_eq_head (fun t ht => (haccepted t ht).kind_mem) hs
  have hgraphKinds : ∀ g ∈ p.samples.map (·.graph), g.kind = p.kind := by
    intro g hg
    obtain ⟨s, hs, rfl⟩ := List.mem_map.1 hg
    exact hkinds s hs
  have hsound : ∀ block, ∀ g ∈ p.samples.map (·.graph), ∀ v ∈ g.vectors block,
      v.IsSound (standard.dims block) := by
    intro block g hg v hv
    obtain ⟨s, hs, rfl⟩ := List.mem_map.1 hg
    exact (haccepted s hs).isSound hv
  refine ⟨hkinds, fun s hs => (haccepted s hs).length_eq, ?_, ?_, ?_⟩
  · intro s hs block v hv
    rw [hlayout]
    exact LabeledGraph.fits_leastLayout hgraphKinds (hsound block) (List.mem_map_of_mem hs) hv
  · intro block
    rw [hlayout]
    exact LabeledGraph.dims_leastLayout_nonneg
  · exact fun s hs v hv => ((haccepted s hs).edge v hv).entry_nonneg

end Problem

end PottsOracle
