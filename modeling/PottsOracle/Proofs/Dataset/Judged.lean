import PottsOracle.Proofs.Dataset.Accepted
import PottsOracle.Proofs.Graph.Aligned

/-!
# Datasets that can be judged

A defect of an edge vector is named by the ends of its edge.  So validation has no verdict on a dataset
in which an edge vector without an edge would have to be named, and it has one on every other dataset,
whatever the samples and labels are (`Dataset.exists_isValid_iff`).  Graphs in another representation
than the first one are not looked into, and neither is anything if the lists are not equally long.

Among given graphs those have too many vectors of whose edges some entry holds fewer than two numbers
(`GivenGraph.edgeVectors_le_iff`), as in `GivenGraph.splitPair`.
-/

namespace PottsOracle

variable {K : Type}

namespace Dataset

/-- The representation of the first graph among samples. -/
def firstKind? (samples : List (Option (LabeledGraph K))) : Option FeatureKind :=
  samples.findSome? fun sample => sample.map (·.kind)

variable {g : LabeledGraph K} {samples : List (Option (LabeledGraph K))}

@[simp]
lemma firstKind?_some : firstKind? (some g :: samples) = some g.kind := rfl

variable [Scalar K] {standard next : Standard} {i : Nat} {sample : Option (LabeledGraph K)}
  {label : Value} {defects : List Defect}

/-! ## One sample -/

/-- A graph is judged if it has no more vectors than edges. -/
lemma exists_graphDefects_iff :
    (∃ next defects, graphDefects standard i g label = .ok (next, defects)) ↔
      g.edgeVectors.length ≤ g.edges.pairs.length := by
  by_cases h : g.edges.pairs.length < g.edgeVectors.length
  · simp only [graphDefects, if_pos h]
    simpa using h
  · simp only [graphDefects, if_neg h]
    simpa using h

/-- A graph that is judged sets its representation. -/
lemma kind_of_graphDefects (h : graphDefects standard i g label = .ok (next, defects)) :
    next.kind = some g.kind := by
  simp only [graphDefects] at h
  split at h
  · cases h
  · cases h
    rfl

/-- A sample is judged unless it is a graph in the representation of the dataset that has more vectors
than edges. -/
lemma exists_sampleDefects_iff :
    (∃ next defects, sampleDefects standard i sample label = .ok (next, defects)) ↔
      ∀ g, sample = some g → standard.kind.or (firstKind? (sample :: samples)) = some g.kind →
        g.edgeVectors.length ≤ g.edges.pairs.length := by
  cases sample with
  | none => simp [sampleDefects]
  | some g =>
    have hkind : g.kind = standard.kind.getD g.kind ↔
        standard.kind.or (some g.kind) = some g.kind := by
      cases standard.kind <;> simp [eq_comm]
    simp only [sampleDefects, firstKind?_some, Option.some.injEq, forall_eq', hkind]
    split
    · rename_i h
      simp only [exists_graphDefects_iff, h, forall_const]
    · rename_i h
      exact ⟨fun _ hown => absurd hown h, fun _ => ⟨_, _, rfl⟩⟩

/-- What representation is expected stays the same from sample to sample. -/
lemma expected_of_sampleDefects
    (h : sampleDefects standard i sample label = .ok (next, defects)) :
    next.kind.or (firstKind? samples) = standard.kind.or (firstKind? (sample :: samples)) := by
  cases sample with
  | none =>
    cases h
    rfl
  | some g =>
    simp only [sampleDefects] at h
    split at h
    · rename_i hkind
      rw [kind_of_graphDefects h]
      cases hset : standard.kind with
      | none => rfl
      | some kind =>
        rw [hset, Option.getD_some] at hkind
        rw [hkind]
        rfl
    · rename_i hkind
      cases h
      cases hset : standard.kind with
      | none =>
        rw [hset] at hkind
        exact absurd rfl hkind
      | some kind => rfl

/-! ## All samples -/

/-- Samples are judged if those in the representation that is set, or that the first graph sets, have
no more vectors than edges. -/
lemma exists_defectsFrom_iff {pairs : List (Option (LabeledGraph K) × Value)} :
    (∃ defects, defectsFrom standard i pairs = .ok defects) ↔
      ∀ g, some g ∈ pairs.map Prod.fst →
        standard.kind.or (firstKind? (pairs.map Prod.fst)) = some g.kind →
        g.edgeVectors.length ≤ g.edges.pairs.length := by
  induction pairs generalizing standard i with
  | nil => simp [defectsFrom]
  | cons p pairs ih =>
    obtain ⟨sample, label⟩ := p
    simp only [List.map_cons, List.mem_cons, or_imp, forall_and]
    constructor
    · rintro ⟨all, h⟩
      obtain ⟨⟨next, defects⟩, hsample, h⟩ := bind_eq_ok_iff.1 h
      obtain ⟨rest, hrest, -⟩ := bind_eq_ok_iff.1 h
      refine ⟨fun g hg => exists_sampleDefects_iff.1 ⟨next, defects, hsample⟩ g hg.symm, ?_⟩
      rw [← expected_of_sampleDefects hsample]
      exact ih.1 ⟨rest, hrest⟩
    · -- the standard may change, but what is expected of the other samples does not
      rintro ⟨hsample, hrest⟩
      have hjudged : ∃ next defects, sampleDefects standard i sample label = .ok (next, defects) :=
        exists_sampleDefects_iff.2 fun g hg => hsample g hg.symm
      obtain ⟨next, defects, hnext⟩ := hjudged
      rw [← expected_of_sampleDefects hnext] at hrest
      have hothers : ∃ rest, defectsFrom next (i + 1) pairs = .ok rest := ih.2 hrest
      obtain ⟨rest, hrest⟩ := hothers
      exact ⟨defects ++ rest, bind_eq_ok_iff.2 ⟨_, hnext, bind_eq_ok_iff.2 ⟨rest, hrest, rfl⟩⟩⟩

/-- Validation has a verdict on a dataset unless, among equally many samples and labels, a graph in the
representation of the first graph has more edge vectors than edges. -/
lemma exists_isValid_iff (d : Dataset K) :
    (∃ valid, d.isValid = .ok valid) ↔
      (d.samples.length = d.labels.length → ∀ g, some g ∈ d.samples →
        firstKind? d.samples = some g.kind → g.edgeVectors.length ≤ g.edges.pairs.length) := by
  have hverdict : (∃ valid, d.isValid = .ok valid) ↔ ∃ defects, d.defects = .ok defects := by
    simp only [isValid, map_eq_ok_iff]
    exact ⟨fun ⟨_, defects, h, _⟩ => ⟨defects, h⟩, fun ⟨defects, h⟩ => ⟨_, defects, h, rfl⟩⟩
  rw [hverdict, defects]
  split
  · rename_i hproblem
    simp only [isLearningProblem, Bool.and_eq_true, beq_iff_eq, decide_eq_true_eq] at hproblem
    rw [exists_defectsFrom_iff, List.map_fst_zip hproblem.1.le]
    simp only [hproblem.1, Option.none_or, forall_const]
  · rename_i hproblem
    refine ⟨fun _ hlength g hg => absurd ?_ hproblem, fun _ => ⟨_, rfl⟩⟩
    simp [isLearningProblem, hlength.symm, List.length_pos_of_mem hg]

/-- The verdict is that nothing is wrong. -/
lemma eq_true_iff_of_isValid {d : Dataset K} {valid : Bool} (h : d.isValid = .ok valid) :
    valid = true ↔ d.defects = .ok [] := by
  obtain ⟨defects, hdefects, rfl⟩ := map_eq_ok_iff.1 h
  rw [List.isEmpty_iff, hdefects, Except.ok.injEq]

end Dataset

/-! ## Given graphs -/

namespace GivenGraph

/-- A graph that is read has no more vectors than edges if and only if every entry of its edges holds two
numbers or more. -/
lemma edgeVectors_le_iff {given : GivenGraph} {g : LabeledGraph Float} (h : given.read = .ok g) :
    g.edgeVectors.length ≤ g.edges.pairs.length ↔
      ∃ entries, given.edges = .list entries ∧ ∀ entry ∈ entries, 2 ≤ entry.leaves.length := by
  obtain ⟨entries, k, hedges, hvectors, hentries, htotal⟩ := exists_entries h
  rw [hedges, ← hvectors]
  simp only [Value.list.injEq, exists_eq_left']
  have hcount : entries.length ≤ g.edges.pairs.length ↔
      entries.length * 2 ≤ entries.length * k := by
    omega
  rw [hcount]
  constructor
  · intro hle entry hentry
    rw [hentries entry hentry]
    exact Nat.le_of_mul_le_mul_left hle (List.length_pos_of_mem hentry)
  · intro htwo
    cases entries with
    | nil => simp
    | cons first rest =>
      rw [← hentries first List.mem_cons_self]
      exact Nat.mul_le_mul_left _ (htwo first List.mem_cons_self)

/-- Validation has a verdict on given samples, of which some may be no graphs, unless there are equally
many samples and labels and some entry of the edges of a graph in the representation of the first graph
holds fewer than two numbers.  Labels can be any values. -/
theorem exists_verdict_iff (given : List (Option GivenGraph))
    (samples : List (Option (LabeledGraph Float))) (labels : List Value)
    (h : given.map (Option.map read) = samples.map (Option.map .ok)) :
    (∃ valid, Dataset.isValid ⟨samples, labels⟩ = .ok valid) ↔
      (samples.length = labels.length → ∀ x g, some x ∈ given → x.read = .ok g →
        Dataset.firstKind? samples = some g.kind →
        ∃ entries, x.edges = .list entries ∧ ∀ entry ∈ entries, 2 ≤ entry.leaves.length) := by
  have hmem : ∀ g, some g ∈ samples ↔ ∃ x, some x ∈ given ∧ x.read = .ok g := by
    intro g
    have hmap : some (.ok g) ∈ given.map (Option.map read) ↔ some g ∈ samples := by
      simp [h, Option.map_eq_some_iff]
    simpa [Option.map_eq_some_iff] using hmap.symm
  -- graphs among the samples are those that are read, so the two conditions are on the same graphs
  rw [Dataset.exists_isValid_iff]
  refine forall_congr' fun _ => ⟨fun hle x g hx hread hkind => ?_, fun htwo g hg hkind => ?_⟩
  · exact (edgeVectors_le_iff hread).1 (hle g ((hmem g).2 ⟨x, hx, hread⟩) hkind)
  · obtain ⟨x, hx, hread⟩ := (hmem g).1 hg
    exact (edgeVectors_le_iff hread).2 (htwo x g hx hread hkind)

theorem exists_verdict_iff_nestedPairs :
    ∃ g, nestedPairs.read = .ok g ∧
      ∃ valid, Dataset.isValid ⟨[some g, none], [.list [.null, .list []], .text []]⟩ = .ok valid := by
  have hread : (nestedPairs.read.map fun _ => ()) = .ok () := by decide +kernel
  obtain ⟨g, hg, -⟩ := map_eq_ok_iff.1 hread
  refine ⟨g, hg, (exists_verdict_iff [some nestedPairs, none] [some g, none] _ ?_).2 ?_⟩
  · simp [hg]
  · rintro - x _ hx - -
    obtain rfl : x = nestedPairs := by simpa using hx
    exact ⟨_, rfl, by decide⟩

/-- Two nodes and an edge, which is listed as two entries and has two vectors. -/
def splitPair : GivenGraph where
  nodes := [.value (.list [.int 1]), .value (.list [.int 2])]
  edges := .list [.int 0, .int 1]
  edgeVectors := [.value (.list [.int 1]), .value (.list [.int 2])]
  kind := none

end GivenGraph

/-- One label is missing. -/
theorem Dataset.isValid_splitPair :
    ∃ g, GivenGraph.splitPair.read = .ok g ∧
      Dataset.isValid ⟨[some g], [.list [.int 1]]⟩ = .error ⟨0, 1⟩ := by
  have hread : (GivenGraph.splitPair.read.map fun g =>
      Dataset.isValid ⟨[some g], [.list [.int 1]]⟩) = .ok (.error ⟨0, 1⟩) := by
    decide +kernel
  exact map_eq_ok_iff.1 hread

end PottsOracle
