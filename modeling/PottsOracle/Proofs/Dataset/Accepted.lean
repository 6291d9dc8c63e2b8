import PottsOracle.Proofs.Traverse
import PottsOracle.Dataset.Validation

/-!
# What validation guarantees

A dataset without defects follows one standard: one representation, and for dense vectors one
length for nodes and one for edges (`Dataset.accepted_of_defects_eq_nil`).  The standard is not given
in advance.  It grows while samples are read, and what it has set once it keeps (`Standard.Le`), so
that every sample can be compared with the standard at the end.
-/

namespace PottsOracle

variable {K : Type}

/-- What the first standard has set, the second one has set in the same way. -/
structure Standard.Le (a b : Standard) : Prop where
  kind : ∀ k ∈ a.kind, k ∈ b.kind
  nodeDims : ∀ n ∈ a.nodeDims, n ∈ b.nodeDims
  edgeDims : ∀ n ∈ a.edgeDims, n ∈ b.edgeDims

namespace Standard.Le

lemma refl (a : Standard) : a.Le a := ⟨fun _ h => h, fun _ h => h, fun _ h => h⟩

lemma trans {a b c : Standard} (hab : a.Le b) (hbc : b.Le c) : a.Le c where
  kind k hk := hbc.kind k (hab.kind k hk)
  nodeDims n hn := hbc.nodeDims n (hab.nodeDims n hn)
  edgeDims n hn := hbc.edgeDims n (hab.edgeDims n hn)

end Standard.Le

namespace FeatureVector

/-! ## One vector -/

/-- A dense vector has the length that is set. -/
def HasLength (dims : Option Nat) : FeatureVector K → Prop
  | dense entries => dims = some entries.length
  | sparse _ => True

/-- A vector without a defect under a length that is set. -/
structure IsSound (dims : Option Nat) (v : FeatureVector K) : Prop where
  size_ne : v.size ≠ 0
  index_nonneg : v.hasNegativeIndex = false
  hasLength : v.HasLength dims

/-- An edge vector without a defect has no negative entry, either. -/
structure IsSoundEdge [Scalar K] (dims : Option Nat) (v : FeatureVector K) : Prop
    extends v.IsSound dims where
  entry_nonneg : v.hasNegativeEntry = false

variable {dims dims' : Option Nat} {v : FeatureVector K}

lemma HasLength.mono (h : v.HasLength dims) (hle : ∀ n ∈ dims, n ∈ dims') : v.HasLength dims' := by
  cases v with
  | dense entries => exact hle _ h
  | sparse terms => trivial

lemma IsSound.mono (h : v.IsSound dims) (hle : ∀ n ∈ dims, n ∈ dims') : v.IsSound dims' :=
  ⟨h.size_ne, h.index_nonneg, h.hasLength.mono hle⟩

lemma IsSoundEdge.mono [Scalar K] (h : v.IsSoundEdge dims) (hle : ∀ n ∈ dims, n ∈ dims') :
    v.IsSoundEdge dims' :=
  ⟨h.toIsSound.mono hle, h.entry_nonneg⟩

/-- A length that is set is kept, and a vector without a defect has it. -/
lemma checkLength_eq_nil (h : (v.checkLength dims).2 = []) :
    (∀ n ∈ dims, n ∈ (v.checkLength dims).1) ∧ v.HasLength (v.checkLength dims).1 := by
  cases v with
  | sparse terms => exact ⟨fun _ hn => hn, trivial⟩
  | dense entries =>
    cases dims with
    | none =>
      refine ⟨?_, rfl⟩
      intro n hn
      cases hn
    | some d =>
      refine ⟨fun _ hn => hn, ?_⟩
      by_contra hne
      have hlength : entries.length ≠ d := fun heq => hne (congrArg some heq.symm)
      simp only [checkLength, if_neg hlength] at h
      cases h

lemma checkNode_eq_nil (h : (v.checkNode dims).2 = []) :
    (∀ n ∈ dims, n ∈ (v.checkNode dims).1) ∧ v.IsSound (v.checkNode dims).1 := by
  rw [checkNode] at h ⊢
  split at h
  · cases h
  · rename_i hsize
    split at h
    · cases h
    · rename_i hindex
      obtain ⟨hle, hlength⟩ := checkLength_eq_nil h
      rw [if_neg hsize, if_neg hindex]
      exact ⟨hle, hsize, by simpa using hindex, hlength⟩

lemma checkEdge_eq_nil [Scalar K] (h : (v.checkEdge dims).2 = []) :
    (∀ n ∈ dims, n ∈ (v.checkEdge dims).1) ∧ v.IsSoundEdge (v.checkEdge dims).1 := by
  unfold checkEdge at h ⊢
  split at h
  · cases h
  · rename_i hsize
    simp only [List.append_eq_nil_iff] at h
    obtain ⟨⟨hindex, hentry⟩, hlengths⟩ := h
    obtain ⟨hle, hlength⟩ := checkLength_eq_nil hlengths
    rw [if_neg hsize]
    refine ⟨hle, ⟨hsize, ?_, hlength⟩, ?_⟩
    · by_contra hneg
      simp [hneg] at hindex
    · by_contra hneg
      simp [hneg] at hentry

/-! ## All vectors of a graph -/

variable (check : Option Nat → FeatureVector K → Option Nat × List VectorDefect)

lemma length_checkAll (expected : Option Nat) (vectors : List (FeatureVector K)) :
    (checkAll check expected vectors).2.length = vectors.length := by
  induction vectors generalizing expected with
  | nil => rfl
  | cons v vectors ih => exact congrArg (· + 1) (ih _)

/-- A check that keeps what is set and finds no defect in any vector vouches for all of them, under
what is set at the end. -/
lemma checkAll_eq_nil (p : Option Nat → FeatureVector K → Prop)
    (hmono : ∀ ⦃a b : Option Nat⦄ ⦃v : FeatureVector K⦄, p a v → (∀ n ∈ a, n ∈ b) → p b v)
    (hcheck : ∀ ⦃a : Option Nat⦄ ⦃v : FeatureVector K⦄, (check a v).2 = [] →
      (∀ n ∈ a, n ∈ (check a v).1) ∧ p (check a v).1 v)
    {expected : Option Nat} {vectors : List (FeatureVector K)}
    (h : ∀ causes ∈ (checkAll check expected vectors).2, causes = []) :
    (∀ n ∈ expected, n ∈ (checkAll check expected vectors).1) ∧
      ∀ v ∈ vectors, p (checkAll check expected vectors).1 v := by
  induction vectors generalizing expected with
  | nil => exact ⟨fun _ hn => hn, by simp⟩
  | cons v vectors ih =>
    obtain ⟨hle, hv⟩ := hcheck (h (check expected v).2 List.mem_cons_self)
    obtain ⟨hrestLe, hrest⟩ := ih fun causes hcauses => h causes (List.mem_cons_of_mem _ hcauses)
    refine ⟨fun n hn => hrestLe n (hle n hn), ?_⟩
    rintro u (_ | ⟨_, hu⟩)
    · exact hmono hv hrestLe
    · exact hrest u hu

end FeatureVector

namespace Dataset

variable [Scalar K]

/-! ## Samples -/

/-- A graph and its labels without a defect under a standard. -/
structure Accepted (standard : Standard) (g : LabeledGraph K) (y : Labeling) : Prop where
  kind_mem : g.kind ∈ standard.kind
  length_eq : y.length = g.order
  count_le : g.edgeVectors.length ≤ g.edges.pairs.length
  noSelfLoop : g.edges.hasSelfLoop = false
  node : ∀ v ∈ g.nodes, v.IsSound standard.nodeDims
  edge : ∀ v ∈ g.edgeVectors, v.IsSoundEdge standard.edgeDims

variable {standard standard' : Standard} {g : LabeledGraph K} {y : Labeling}

lemma Accepted.mono (h : Accepted standard g y) (hle : standard.Le standard') :
    Accepted standard' g y where
  kind_mem := hle.kind _ h.kind_mem
  length_eq := h.length_eq
  count_le := h.count_le
  noSelfLoop := h.noSelfLoop
  node v hv := (h.node v hv).mono hle.nodeDims
  edge v hv := (h.edge v hv).mono hle.edgeDims

omit [Scalar K] in
lemma labelDefects_eq_nil {i : Nat} {label : Value} (h : labelDefects i g label = []) :
    ∃ y, Labeling.read label = .ok y ∧ y.length = g.order := by
  rw [labelDefects] at h
  split at h
  · cases h
  · rename_i y hy
    refine ⟨y, hy, ?_⟩
    by_contra hne
    rw [if_neg hne] at h
    cases h

omit [Scalar K] in
/-- If no defect is listed under any name, there is none. -/
lemma causes_eq_nil {A : Type} {listed : List A} {name : A → VectorDefect → Defect}
    (causesOf : A → List VectorDefect)
    (h : (listed.flatMap fun a => (causesOf a).map (name a)) = []) :
    ∀ causes ∈ listed.map causesOf, causes = [] := by
  intro causes hcauses
  obtain ⟨a, ha, rfl⟩ := List.mem_map.1 hcauses
  rw [List.flatMap_eq_nil_iff] at h
  exact List.map_eq_nil_iff.1 (h a ha)

lemma graphDefects_eq_nil {i : Nat} {label : Value} (hkind : ∀ k ∈ standard.kind, k = g.kind)
    (h : graphDefects standard i g label = .ok (standard', [])) :
    standard.Le standard' ∧ ∃ y, Labeling.read label = .ok y ∧ Accepted standard' g y := by
  simp only [graphDefects] at h
  split at h
  · cases h
  · rename_i hcount
    injection h with h
    injection h with hstandard hdefects
    subst hstandard
    simp only [List.append_eq_nil_iff] at hdefects
    obtain ⟨⟨⟨hlabel, hloop⟩, hnodes⟩, hedges⟩ := hdefects
    obtain ⟨y, hread, hlength⟩ := labelDefects_eq_nil hlabel
    have hcount : g.edgeVectors.length ≤ g.edges.pairs.length := not_lt.1 hcount
    have hnodeCauses := causes_eq_nil Prod.fst hnodes
    have hedgeCauses := causes_eq_nil Prod.snd hedges
    rw [List.zipIdx_map_fst] at hnodeCauses
    -- no edge vector is without an edge, so the defects of all of them are listed
    rw [List.map_snd_zip (by rwa [FeatureVector.length_checkAll])] at hedgeCauses
    obtain ⟨hnodeLe, hnode⟩ := FeatureVector.checkAll_eq_nil FeatureVector.checkNode
      FeatureVector.IsSound (fun _ _ _ => FeatureVector.IsSound.mono)
      (fun _ _ => FeatureVector.checkNode_eq_nil) hnodeCauses
    obtain ⟨hedgeLe, hedge⟩ := FeatureVector.checkAll_eq_nil FeatureVector.checkEdge
      FeatureVector.IsSoundEdge (fun _ _ _ => FeatureVector.IsSoundEdge.mono)
      (fun _ _ => FeatureVector.checkEdge_eq_nil) hedgeCauses
    refine ⟨⟨?_, hnodeLe, hedgeLe⟩, y, hread, ⟨rfl, hlength, hcount, ?_, hnode, hedge⟩⟩
    · intro k hk
      rw [hkind k hk]
      rfl
    · by_contra hself
      simp [hself] at hloop

/-- A sample without a defect is a graph with labels, and raises the standard to its own. -/
lemma sampleDefects_eq_nil {i : Nat} {sample : Option (LabeledGraph K)} {label : Value}
    (h : sampleDefects standard i sample label = .ok (standard', [])) :
    standard.Le standard' ∧
      ∃ g y, sample = some g ∧ Labeling.read label = .ok y ∧ Accepted standard' g y := by
  cases sample with
  | none => cases h
  | some g =>
    simp only [sampleDefects] at h
    split at h
    · rename_i hkind
      have hkind : ∀ k ∈ standard.kind, k = g.kind := by
        intro k hk
        rw [hkind, Option.mem_def.1 hk, Option.getD_some]
      obtain ⟨hle, y, hread, haccepted⟩ := graphDefects_eq_nil hkind h
      exact ⟨hle, g, y, rfl, hread, haccepted⟩
    · cases h

/-! ## Datasets -/

lemma defectsFrom_eq_nil {i : Nat} {pairs : List (Option (LabeledGraph K) × Value)}
    (h : defectsFrom standard i pairs = .ok []) :
    ∃ final, standard.Le final ∧ ∀ p ∈ pairs, ∃ g y, p.1 = some g ∧
      Labeling.read p.2 = .ok y ∧ Accepted final g y := by
  induction pairs generalizing standard i with
  | nil => exact ⟨standard, .refl standard, by simp⟩
  | cons p pairs ih =>
    obtain ⟨sample, label⟩ := p
    obtain ⟨⟨next, defects⟩, hsample, h⟩ := bind_eq_ok_iff.1 h
    obtain ⟨rest, hrest, h⟩ := bind_eq_ok_iff.1 h
    obtain ⟨rfl, rfl⟩ := List.append_eq_nil_iff.1 (Except.ok.inj h)
    obtain ⟨hle, g, y, hg, hread, haccepted⟩ := sampleDefects_eq_nil hsample
    obtain ⟨final, hfinal, hall⟩ := ih hrest
    refine ⟨final, hle.trans hfinal, ?_⟩
    rintro p (_ | ⟨_, hp⟩)
    · exact ⟨g, y, hg, hread, haccepted.mono hfinal⟩
    · exact hall p hp

/-- In a dataset without defects every sample is a graph with labels, and all follow one
standard. -/
theorem accepted_of_defects_eq_nil {d : Dataset K} (h : d.defects = .ok []) :
    d.samples.length = d.labels.length ∧ d.samples ≠ [] ∧
      ∃ standard, ∀ p ∈ d.samples.zip d.labels, ∃ g y, p.1 = some g ∧
        Labeling.read p.2 = .ok y ∧ Accepted standard g y := by
  rw [defects] at h
  split at h
  · rename_i hproblem
    simp only [isLearningProblem, Bool.and_eq_true, beq_iff_eq, decide_eq_true_eq] at hproblem
    obtain ⟨standard, -, hall⟩ := defectsFrom_eq_nil h
    exact ⟨hproblem.1, List.ne_nil_of_length_pos hproblem.2, standard, hall⟩
  · cases h

end Dataset

end PottsOracle
