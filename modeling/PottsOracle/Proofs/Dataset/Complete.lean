import PottsOracle.Proofs.Dataset.Accepted

/-!
# Only defects are reported

Validation finds nothing wrong with samples that follow one standard
(`Dataset.defects_eq_nil_of_accepted`).  While samples are read, what has been set so far stays below
the standard that all of them follow, so that no check can fail.  With the converse this says that
a dataset has no defects if and only if there is such a standard
(`Dataset.defects_eq_nil_iff_accepted`).
-/

namespace PottsOracle

variable {K : Type}

namespace FeatureVector

variable {dims final : Option Nat} {v : FeatureVector K}

/-! ## One vector -/

/-- A vector of the final length agrees with what has been set so far, and sets nothing else. -/
lemma checkLength_of_hasLength (h : v.HasLength final) (hle : ∀ n ∈ dims, n ∈ final) :
    (v.checkLength dims).2 = [] ∧ ∀ n ∈ (v.checkLength dims).1, n ∈ final := by
  cases v with
  | sparse terms => exact ⟨rfl, hle⟩
  | dense entries =>
    cases dims with
    | none =>
      refine ⟨rfl, ?_⟩
      rintro _ ⟨⟩
      exact h
    | some d =>
      have hlength : entries.length = d := Option.mem_unique h (hle d rfl)
      exact ⟨if_pos hlength, hle⟩

lemma checkNode_of_isSound (h : v.IsSound final) (hle : ∀ n ∈ dims, n ∈ final) :
    (v.checkNode dims).2 = [] ∧ ∀ n ∈ (v.checkNode dims).1, n ∈ final := by
  rw [checkNode, if_neg h.size_ne, h.index_nonneg]
  exact checkLength_of_hasLength h.hasLength hle

lemma checkEdge_of_isSoundEdge [Scalar K] (h : v.IsSoundEdge final) (hle : ∀ n ∈ dims, n ∈ final) :
    (v.checkEdge dims).2 = [] ∧ ∀ n ∈ (v.checkEdge dims).1, n ∈ final := by
  obtain ⟨hlengths, hset⟩ := checkLength_of_hasLength h.hasLength hle
  rw [checkEdge, if_neg h.size_ne, h.index_nonneg, h.entry_nonneg]
  exact ⟨hlengths, hset⟩

/-! ## All vectors of a graph -/

/-- A check that passes every vector under the final length passes a list of them. -/
lemma checkAll_of_forall (check : Option Nat → FeatureVector K → Option Nat × List VectorDefect)
    {p : FeatureVector K → Prop}
    (hcheck : ∀ ⦃dims : Option Nat⦄ ⦃v : FeatureVector K⦄, p v → (∀ n ∈ dims, n ∈ final) →
      (check dims v).2 = [] ∧ ∀ n ∈ (check dims v).1, n ∈ final)
    {vectors : List (FeatureVector K)} (h : ∀ v ∈ vectors, p v) (hle : ∀ n ∈ dims, n ∈ final) :
    (∀ causes ∈ (checkAll check dims vectors).2, causes = []) ∧
      ∀ n ∈ (checkAll check dims vectors).1, n ∈ final := by
  induction vectors generalizing dims with
  | nil => exact ⟨by simp [checkAll], hle⟩
  | cons v vectors ih =>
    obtain ⟨hnone, hset⟩ := hcheck (h v List.mem_cons_self) hle
    obtain ⟨hrest, hend⟩ := ih (fun u hu => h u (List.mem_cons_of_mem v hu)) hset
    refine ⟨?_, hend⟩
    rintro causes (_ | ⟨_, hcauses⟩)
    · exact hnone
    · exact hrest causes hcauses

end FeatureVector

namespace Dataset

variable [Scalar K] {standard final : Standard} {g : LabeledGraph K} {y : Labeling}

/-! ## Samples -/

lemma nodeDefects_eq_nil {found : List (List VectorDefect)} (h : ∀ causes ∈ found, causes = [])
    (i : Nat) :
    (found.zipIdx.flatMap fun (causes, j) => causes.map (Defect.node i j ·)) = [] := by
  rw [List.flatMap_eq_nil_iff]
  rintro ⟨causes, j⟩ hmem
  rw [h causes (List.fst_mem_of_mem_zipIdx hmem)]
  rfl

lemma edgeDefects_eq_nil {found : List (List VectorDefect)} (h : ∀ causes ∈ found, causes = [])
    (i : Nat) (pairs : List (Nat × Nat)) :
    ((pairs.zip found).flatMap fun (ends, causes) => causes.map (Defect.edge i ends ·)) = [] := by
  rw [List.flatMap_eq_nil_iff]
  rintro ⟨ends, causes⟩ hmem
  rw [h causes (List.of_mem_zip hmem).2]
  rfl

lemma graphDefects_of_accepted (h : Accepted final g y) (hle : standard.Le final) (i : Nat)
    {label : Value} (hread : Labeling.read label = .ok y) :
    ∃ next, graphDefects standard i g label = .ok (next, []) ∧ next.Le final := by
  obtain ⟨hnodes, hnodeDims⟩ := FeatureVector.checkAll_of_forall FeatureVector.checkNode
    (fun _ _ => FeatureVector.checkNode_of_isSound) h.node hle.nodeDims
  obtain ⟨hedges, hedgeDims⟩ := FeatureVector.checkAll_of_forall FeatureVector.checkEdge
    (fun _ _ => FeatureVector.checkEdge_of_isSoundEdge) h.edge hle.edgeDims
  have hlabel : labelDefects i g label = [] := by
    rw [labelDefects, hread]
    exact if_pos h.length_eq
  refine ⟨⟨g.kind, _, _⟩, ?_, ⟨?_, hnodeDims, hedgeDims⟩⟩
  · simp only [graphDefects]
    rw [if_neg (not_lt.2 h.count_le), hlabel, h.noSelfLoop, nodeDefects_eq_nil hnodes,
      edgeDefects_eq_nil hedges]
    rfl
  · rintro _ ⟨⟩
    exact h.kind_mem

/-- A sample that follows the final standard has no defect, and sets nothing else. -/
lemma sampleDefects_of_accepted (h : Accepted final g y) (hle : standard.Le final) (i : Nat)
    {label : Value} (hread : Labeling.read label = .ok y) :
    ∃ next, sampleDefects standard i (some g) label = .ok (next, []) ∧ next.Le final := by
  have hkind : g.kind = standard.kind.getD g.kind := by
    cases hset : standard.kind with
    | none => rfl
    | some kind => exact Option.mem_unique h.kind_mem (hle.kind kind hset)
  simp only [sampleDefects, if_pos hkind]
  exact graphDefects_of_accepted h hle i hread

/-! ## Datasets -/

lemma defectsFrom_of_accepted {pairs : List (Option (LabeledGraph K) × Value)}
    (h : ∀ p ∈ pairs, ∃ g y, p.1 = some g ∧ Labeling.read p.2 = .ok y ∧ Accepted final g y)
    (hle : standard.Le final) (i : Nat) : defectsFrom standard i pairs = .ok [] := by
  induction pairs generalizing standard i with
  | nil => rfl
  | cons p pairs ih =>
    obtain ⟨sample, label⟩ := p
    obtain ⟨g, y, rfl, hread, haccepted⟩ := h (sample, label) List.mem_cons_self
    obtain ⟨next, hnone, hnext⟩ := sampleDefects_of_accepted haccepted hle i hread
    have hrest := ih (fun q hq => h q (List.mem_cons_of_mem _ hq)) hnext (i + 1)
    exact bind_eq_ok_iff.2 ⟨_, hnone, bind_eq_ok_iff.2 ⟨[], hrest, rfl⟩⟩

/-- A dataset has no defects if and only if there are samples, each with labels, and all follow one
standard. -/
theorem defects_eq_nil_iff_accepted {d : Dataset K} :
    d.defects = .ok [] ↔
      d.samples.length = d.labels.length ∧ d.samples ≠ [] ∧
        ∃ standard, ∀ p ∈ d.samples.zip d.labels, ∃ g y, p.1 = some g ∧
          Labeling.read p.2 = .ok y ∧ Accepted standard g y := by
  constructor
  · exact accepted_of_defects_eq_nil
  · rintro ⟨hlength, hne, standard, h⟩
    have hproblem : d.isLearningProblem = true := by
      simp [isLearningProblem, hlength.symm, List.length_pos_iff.2 hne]
    rw [defects, if_pos hproblem]
    -- nothing has been set before the first sample
    exact defectsFrom_of_accepted h ⟨by simp, by simp, by simp⟩ 0

end Dataset

end PottsOracle
