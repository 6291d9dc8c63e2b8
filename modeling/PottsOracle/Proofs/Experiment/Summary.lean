import Mathlib.Tactic
import PottsOracle.Experiment.Run
import PottsOracle.Proofs.Oracle.ZeroWeights
import PottsOracle.Proofs.Settings.Range
import PottsOracle.Proofs.Synthetic.Layout

/-!
# What an experiment sums up

An experiment on generated data has one of three outcomes (`Experiment.outcome_run`).  It fails if the
data are not valid, it fails if the search has too many nodes, and else it has a summary.  In the summary
the mean loss under weights that are all zero is the number of nodes, because every label is turned
around; the mean loss under weights that are all one is not larger.

Everything is exact here, so settings are read exactly, too (`DataSettings.IsExact`).
-/

namespace PottsOracle

/-! ## Exact settings -/

/-- The generator of settings whose numbers are finite, in exact arithmetic. -/
structure DataSettings.IsExact (s : DataSettings) (g : Generator Rat) : Prop where
  samples : s.samples.count = .ok g.samples
  nodes : s.nodes.length = .ok g.nodes
  nodeDims : s.nodeDims.length = .ok g.nodeDims
  edgeDims : s.edgeDims.length = .ok g.edgeDims
  pSame : s.pSame.value? = some g.pSame
  pDiff : s.pDiff.value? = some g.pDiff
  noise : s.noise.value? = some g.noise
  kind : s.representation = g.kind

namespace Number

variable {x : Number} {k n : ℕ}

lemma le_of_count (h : x.count = .ok n) (hk : x.lessThan k = false) : k ≤ n := by
  cases x with
  | bool b =>
    cases h
    simpa [lessThan] using hk
  | int i =>
    cases h
    have hle : (k : ℤ) ≤ i := by simpa [lessThan] using hk
    omega
  | float x => cases h

lemma le_of_length (h : x.length = .ok n) (hk : x.lessThan k = false) : k ≤ n := by
  cases x with
  | bool b => cases h
  | int i => exact le_of_count (x := .int i) h hk
  | float x => cases h

end Number

namespace Experiment

/-! ## Means -/

lemma mean_mem {xs : List Rat} {a b : Rat} (hne : xs ≠ []) (h : ∀ x ∈ xs, a ≤ x ∧ x ≤ b) :
    a ≤ mean xs ∧ mean xs ≤ b := by
  have hpos : (0 : Rat) < xs.length := by exact_mod_cast List.length_pos_iff.2 hne
  have hlow := List.card_nsmul_le_sum xs a fun x hx => (h x hx).1
  have hhigh := List.sum_le_card_nsmul xs b fun x hx => (h x hx).2
  rw [nsmul_eq_mul, mul_comm] at hlow hhigh
  rw [mean, Scalar.total_rat, Scalar.ofNat_rat, le_div_iff₀ hpos, div_le_iff₀ hpos]
  exact ⟨hlow, hhigh⟩

variable {p : Problem Rat} {reference : ReferenceWeights}

lemma length_weights {total : ℤ} (h : 0 ≤ total) :
    ((weights total reference : List Rat).length : ℤ) = total := by
  cases reference <;> simp [weights, h]

/-- Reference weights have the right number, so every sample is asked under them. -/
lemma separateAll_weights (h : 0 ≤ p.totalDims) :
    p.separateAll (weights p.totalDims reference) =
      p.samples.mapM fun s => p.separate s (weights p.totalDims reference) := by
  have hchecked : p.layout.checkWeights (weights p.totalDims reference) = .ok () :=
    if_pos (length_weights h)
  rw [Problem.separateAll, hchecked]
  rfl

/-- If all samples have constraints whose losses lie between two bounds, so does the mean loss. -/
lemma exists_meanLoss (h : 0 ≤ p.totalDims) (hne : p.samples ≠ []) {a b : Rat}
    (hseparate : ∀ s ∈ p.samples, ∃ c,
      p.separate s (weights p.totalDims reference) = .ok c ∧ a ≤ c.loss ∧ c.loss ≤ b) :
    ∃ loss, meanLoss p reference = .ok loss ∧ a ≤ loss ∧ loss ≤ b := by
  obtain ⟨constraints, hall⟩ := exists_forall₂ hseparate
  have hseparateAll : p.separateAll (weights p.totalDims reference) = .ok constraints := by
    rw [separateAll_weights h]
    exact mapM_eq_ok_iff.2 (hall.imp fun _ _ hc => hc.1)
  refine ⟨mean (constraints.map (·.loss)), ?_, mean_mem ?_ ?_⟩
  · rw [meanLoss, hseparateAll]
    rfl
  · rw [ne_eq, List.map_eq_nil_iff, ← List.length_eq_zero_iff, ← hall.length_eq,
      List.length_eq_zero_iff]
    exact hne
  · rw [List.forall_mem_map]
    exact forall_mem_of_forall₂ hall fun _ _ _ hc => hc.2

/-- An experiment fails if the oracle fails for the first sample. -/
lemma meanLoss_eq_error (h : 0 ≤ p.totalDims) {first : Sample Rat} {others : List (Sample Rat)}
    (hsamples : p.samples = first :: others) {e : QueryError Rat}
    (hseparate : p.separate first (weights p.totalDims reference) = .error e) :
    meanLoss p reference = .error (.query e) := by
  rw [meanLoss, separateAll_weights h, hsamples, List.mapM_cons]
  simp only [bind, Except.bind, hseparate]
  rfl

end Experiment

/-! ## Stages -/

namespace Reported

variable {K α : Type}

@[simp]
lemma outcome_pure (a : α) : (pure a : Reported K α).outcome = pure a := rfl

@[simp]
lemma outcome_ofOutcome (outcome : Except (ExperimentError K) α) :
    (ofOutcome outcome).outcome = outcome := rfl

@[simp]
lemma outcome_report (event : Event K) : (report event).outcome = pure () := rfl

end Reported

namespace Problem

variable {K : Type} [Scalar K]

omit [Scalar K] in
/-- The samples of a dataset of samples. -/
lemma samplesOf_ofSamples (drawn : List (Sample K)) :
    samplesOf (Dataset.ofSamples drawn) = drawn := by
  rw [samplesOf, Dataset.zip_ofSamples, List.filterMap_map]
  simp [Labeling.read_labelValue]

/-- Samples without defects make a problem. -/
lemma exists_ofDataset {drawn : List (Sample K)}
    (h : (Dataset.ofSamples drawn).defects = .ok []) (solver : Solver) :
    ∃ p, ofDataset (.ofSamples drawn) solver = .ok p ∧ p.samples = drawn ∧ p.solver = solver ∧
      p.layout = LabeledGraph.leastLayout (drawn.map (·.graph)) := by
  have hp : ∃ p, ofDataset (.ofSamples drawn) solver = .ok p := by
    rw [ofDataset, h]
    exact ⟨_, rfl⟩
  obtain ⟨p, hp⟩ := hp
  obtain ⟨-, hsamples, hsolver, -, hlayout⟩ := ofDataset_eq_ok hp
  rw [samplesOf_ofSamples] at hsamples
  exact ⟨p, hp, hsamples, hsolver, hsamples ▸ hlayout⟩

/-- A dataset with defects is refused. -/
lemma ofDataset_eq_error {d : Dataset K} {defects : List Defect} (h : d.defects = .ok defects)
    (hne : defects ≠ []) (solver : Solver) :
    ofDataset d solver = .error (.invalid defects) := by
  rw [ofDataset, h]
  exact if_neg hne

variable {p : Problem Rat} {s : Sample Rat} {weights : List Rat}

/-- The search refuses a sample with too many nodes. -/
lemma separate_eq_error {m : PottsModel Rat}
    (hm : SeparationOracle.pottsModel p.layout s.graph weights (some s.truth) = .ok m)
    (hsolver : p.solver = .exhaustive) (hmany : maxSearchedNodes < s.graph.order) :
    p.separate s weights = .error (.oracle (.solver (.tooManyNodes s.graph.order))) := by
  rw [separate, SeparationOracle.solve,
    SeparationOracle.findLabeling_eq_error p.oracle hm hsolver hmany]
  rfl

/-- All samples have joint feature vectors for their true labels. -/
lemma IsReady.exists_truthVectors (h : p.IsReady) :
    ∃ vectors, p.samples.mapM p.truthVector = .ok vectors := by
  obtain ⟨vectors, hvectors⟩ := exists_forall₂ (r := fun s psi => p.truthVector s = .ok psi)
    fun s hs => by
      obtain ⟨psi, -, hpsi, -⟩ := h.exists_vector hs (h.length_eq s hs)
      exact ⟨psi, hpsi⟩
  exact ⟨vectors, mapM_eq_ok_iff.2 hvectors⟩

end Problem

namespace Experiment

variable {g : Generator Rat} {solver : Solver} {draws : Draws Rat} {drawn : List (Sample Rat)}

/-- The outcome of an experiment is the one of its computations, one after the other. -/
lemma outcome_run_eq : (run g solver draws).outcome =
    ((Synthetic.generate g draws).mapError ExperimentError.graph >>= fun drawn =>
      (Problem.ofDataset (.ofSamples drawn) solver).mapError .dataset >>= fun p =>
      (p.samples.mapM p.truthVector).mapError .query >>= fun _ =>
      meanLoss p .zeros >>= fun zeros =>
      meanLoss p .ones >>= fun ones =>
      pure ⟨p.size, p.totalDims, p.edgeWeights, zeros, ones⟩) := by
  simp only [run, separationStage, Reported.outcome_bind, Reported.outcome_stage,
    Reported.outcome_pure, Reported.outcome_ofOutcome, Reported.outcome_report, pure_bind, bind_pure]

/-! ## Mean losses -/

/-- A problem of some graphs, all of them with equally many nodes and a vector for every edge. -/
structure IsUniform (p : Problem Rat) (nodes : ℕ) : Prop where
  ready : p.IsReady
  nonempty : p.samples ≠ []
  count_eq : ∀ s ∈ p.samples, s.graph.edges.pairs.length = s.graph.edgeVectors.length
  order_eq : ∀ s ∈ p.samples, s.graph.order = nodes

namespace IsUniform

variable {p : Problem Rat} {nodes : ℕ} {s : Sample Rat}

lemma totalDims_nonneg (h : IsUniform p nodes) : 0 ≤ p.totalDims :=
  FeatureLayout.total_nonneg h.ready.dims_nonneg

/-- Reference weights are not negative, so they make a Potts model. -/
lemma exists_pottsModel (h : IsUniform p nodes) (hs : s ∈ p.samples)
    (reference : ReferenceWeights) :
    ∃ m, SeparationOracle.pottsModel p.layout s.graph (weights p.totalDims reference)
      (some s.truth) = .ok m := by
  refine h.ready.exists_pottsModel hs (h.count_eq s hs) (length_weights h.totalDims_nonneg) ?_
  intro w hw
  cases reference with
  | zeros => exact (List.eq_of_mem_replicate (List.mem_of_mem_take hw)).ge
  | ones => exact zero_le_one.trans_eq (List.eq_of_mem_replicate (List.mem_of_mem_take hw)).symm

/-- Under weights that are all zero the mean loss is the number of nodes. -/
lemma meanLoss_zeros (h : IsUniform p nodes)
    (hsearch : p.solver = .exhaustive → nodes ≤ maxSearchedNodes) :
    meanLoss p .zeros = .ok (nodes : Rat) := by
  have hzeros : ∀ w ∈ weights p.totalDims .zeros, w = (0 : Rat) :=
    fun w hw => List.eq_of_mem_replicate hw
  have hseparate : ∀ s ∈ p.samples, ∃ c, p.separate s (weights p.totalDims .zeros) = .ok c ∧
      (nodes : Rat) ≤ c.loss ∧ c.loss ≤ nodes := by
    intro s hs
    obtain ⟨c, hc, hloss, -⟩ := h.ready.separate_of_zeros hs (h.count_eq s hs)
      (length_weights h.totalDims_nonneg) hzeros (h.order_eq s hs ▸ hsearch)
    rw [h.order_eq s hs] at hloss
    exact ⟨c, hc, hloss.ge, hloss.le⟩
  obtain ⟨loss, hloss, hlow, hhigh⟩ := exists_meanLoss h.totalDims_nonneg h.nonempty hseparate
  rw [hloss, le_antisymm hhigh hlow]

/-- Under weights that are all one the mean loss is not larger than the number of nodes. -/
lemma exists_meanLoss_ones (h : IsUniform p nodes)
    (hsearch : p.solver = .exhaustive → nodes ≤ maxSearchedNodes) :
    ∃ loss, meanLoss p .ones = .ok loss ∧ 0 ≤ loss ∧ loss ≤ nodes :=
  exists_meanLoss h.totalDims_nonneg h.nonempty fun s hs => by
    obtain ⟨m, hm⟩ := h.exists_pottsModel hs .ones
    obtain ⟨c, hc, -, -, hlow, hhigh⟩ := h.ready.exists_separate hs hm (h.order_eq s hs ▸ hsearch)
    rw [h.order_eq s hs] at hhigh
    exact ⟨c, hc, hlow, hhigh⟩

/-- The search refuses graphs with too many nodes. -/
lemma meanLoss_eq_error (h : IsUniform p nodes) (hsolver : p.solver = .exhaustive)
    (hmany : maxSearchedNodes < nodes) (reference : ReferenceWeights) :
    meanLoss p reference = .error (.query (.oracle (.solver (.tooManyNodes nodes)))) := by
  obtain ⟨first, others, hsamples⟩ := List.exists_cons_of_ne_nil h.nonempty
  have hfirst : first ∈ p.samples := hsamples ▸ List.mem_cons_self
  obtain ⟨m, hm⟩ := h.exists_pottsModel hfirst reference
  have horder := h.order_eq first hfirst
  have hseparate := Problem.separate_eq_error hm hsolver (horder ▸ hmany)
  rw [horder] at hseparate
  exact Experiment.meanLoss_eq_error h.totalDims_nonneg hsamples hseparate

end IsUniform

/-! ## The summary -/

end Experiment

/-- What the summary of an experiment on generated data says. -/
structure Summary.IsOf (g : Generator Rat) (drawn : List (Sample Rat)) (summary : Summary Rat) :
    Prop where
  samples_eq : summary.samples = g.samples
  meanLossZeros_eq : summary.meanLossZeros = g.nodes
  meanLossOnes_nonneg : 0 ≤ summary.meanLossOnes
  meanLossOnes_le : summary.meanLossOnes ≤ g.nodes
  edgeWeights_eq : g.kind = .dense → summary.edgeWeights =
    if ∃ s ∈ drawn, s.graph.edges.pairs ≠ [] then (g.edgeDims : ℤ) else 0
  totalDims_eq : g.kind = .dense → summary.totalDims = g.nodeDims + summary.edgeWeights
  edgeWeights_le : summary.edgeWeights ≤ g.edgeDims
  totalDims_le : summary.totalDims ≤ g.nodeDims + g.edgeDims

namespace Experiment

variable {g : Generator Rat} {starts : List (Draws Rat)} {drawn : List (Sample Rat)}

open Synthetic

/-- Valid data that are drawn make a problem whose graphs have equally many nodes. -/
lemma exists_isUniform (hdrawn : List.Forall₂ (IsDrawn g) starts drawn) (hne : drawn ≠ [])
    (hdefects : (Dataset.ofSamples drawn).defects = .ok []) (solver : Solver) :
    ∃ p, Problem.ofDataset (.ofSamples drawn) solver = .ok p ∧ IsUniform p g.nodes ∧
      p.samples = drawn ∧ p.solver = solver ∧
      p.layout = LabeledGraph.leastLayout (drawn.map (·.graph)) := by
  obtain ⟨p, hp, rfl, hsolver, hlayout⟩ := Problem.exists_ofDataset hdefects solver
  refine ⟨p, hp, ⟨Problem.isReady_of_ofDataset hp, hne, ?_, ?_⟩, rfl, hsolver, hlayout⟩
  · exact forall_mem_of_forall₂ hdrawn fun start _ s hs => hs.count_eq
  · exact forall_mem_of_forall₂ hdrawn fun start _ s hs => hs.order_eq

/-- The edge block of dense data. -/
lemma edgeDims_of_dense (hdrawn : List.Forall₂ (IsDrawn g) starts drawn) (hkind : g.kind = .dense) :
    (LabeledGraph.leastLayout (drawn.map (·.graph))).edgeDims =
      if ∃ s ∈ drawn, s.graph.edges.pairs ≠ [] then (g.edgeDims : ℤ) else 0 := by
  have hiff : ∀ s ∈ drawn, s.graph.vectors .edge = [] ↔ s.graph.edges.pairs = [] :=
    forall_mem_of_forall₂ hdrawn fun start _ s hs => by
      rw [← List.length_eq_zero_iff, ← List.length_eq_zero_iff, hs.count_eq]
      rfl
  split
  · rename_i hsome
    obtain ⟨s, hs, hne⟩ := hsome
    exact dims_leastLayout_eq hdrawn hkind .edge hs (mt (hiff s hs).1 hne)
  · rename_i hnone
    push Not at hnone
    exact dims_leastLayout_eq_zero .edge fun s hs => (hiff s hs).2 (hnone s hs)

/-- There are nodes, so the node block of dense data is as long as their rows. -/
lemma nodeDims_of_dense (hdrawn : List.Forall₂ (IsDrawn g) starts drawn) (hkind : g.kind = .dense)
    (hne : drawn ≠ []) (hnodes : 0 < g.nodes) :
    (LabeledGraph.leastLayout (drawn.map (·.graph))).nodeDims = g.nodeDims := by
  have horder : ∀ s ∈ drawn, s.graph.order = g.nodes :=
    forall_mem_of_forall₂ hdrawn fun start _ s hs => hs.order_eq
  obtain ⟨s, hs⟩ := List.exists_mem_of_ne_nil _ hne
  refine dims_leastLayout_eq hdrawn hkind .node hs (List.ne_nil_of_length_pos ?_)
  exact hnodes.trans_eq (horder s hs).symm

/-- A summary that reports the problem of valid data says what is due. -/
lemma isOf (hdrawn : List.Forall₂ (IsDrawn g) starts drawn) (hlength : drawn.length = g.samples)
    (hne : drawn ≠ []) (hnodes : 0 < g.nodes) {p : Problem Rat} (hsamples : p.samples = drawn)
    (hlayout : p.layout = LabeledGraph.leastLayout (drawn.map (·.graph))) {ones : Rat}
    (hones : 0 ≤ ones ∧ ones ≤ g.nodes) :
    (⟨p.size, p.totalDims, p.edgeWeights, g.nodes, ones⟩ : Summary Rat).IsOf g drawn := by
  have hnodeDims : p.layout.nodeDims ≤ g.nodeDims := by
    rw [hlayout]
    exact dims_leastLayout_le hdrawn .node
  have hedgeDims : p.layout.edgeDims ≤ g.edgeDims := by
    rw [hlayout]
    exact dims_leastLayout_le hdrawn .edge
  refine ⟨?_, rfl, hones.1, hones.2, ?_, ?_, hedgeDims, ?_⟩
  · exact (congrArg List.length hsamples).trans hlength
  · intro hkind
    exact (congrArg FeatureLayout.edgeDims hlayout).trans (edgeDims_of_dense hdrawn hkind)
  · intro hkind
    have heq : p.layout.nodeDims = g.nodeDims := by
      rw [hlayout, nodeDims_of_dense hdrawn hkind hne hnodes]
    show p.layout.edgeDims + p.layout.nodeDims = g.nodeDims + p.layout.edgeDims
    omega
  · show p.layout.edgeDims + p.layout.nodeDims ≤ g.nodeDims + g.edgeDims
    omega

/-! ## Outcomes -/

variable {solver : Solver} {draws : Draws Rat}

/-- Data with defects end an experiment. -/
lemma outcome_of_defects (hgenerate : generate g draws = .ok drawn) {defects : List Defect}
    (hdefects : (Dataset.ofSamples drawn).defects = .ok defects) (hsome : defects ≠ []) :
    (run g solver draws).outcome = .error (.dataset (.invalid defects)) := by
  rw [outcome_run_eq, hgenerate]
  simp only [Except.mapError, bind, Except.bind, Problem.ofDataset_eq_error hdefects hsome]

/-- Once there is a problem, the outcome is the one of the two mean losses. -/
lemma outcome_of_problem (hgenerate : generate g draws = .ok drawn) {p : Problem Rat}
    (hp : Problem.ofDataset (.ofSamples drawn) solver = .ok p) (hready : p.IsReady) :
    (run g solver draws).outcome =
      (meanLoss p .zeros >>= fun zeros => meanLoss p .ones >>= fun ones =>
        pure ⟨p.size, p.totalDims, p.edgeWeights, zeros, ones⟩) := by
  obtain ⟨vectors, hvectors⟩ := hready.exists_truthVectors
  rw [outcome_run_eq, hgenerate]
  simp only [Except.mapError, bind, Except.bind, hp, hvectors]

/-- An experiment with data that are not valid fails, one with too many nodes for the search fails, and
every other one has a summary. -/
theorem outcome_run (s : Settings) (g : Generator Rat) (h : s.data.IsExact g) (draws : Draws Rat) :
    ∃ drawn valid, generate g draws = .ok drawn ∧
      (Dataset.ofSamples drawn).isValid = .ok valid ∧
      (valid = false → ∃ defects, defects ≠ [] ∧
        (run g s.problem.solver draws).outcome = .error (.dataset (.invalid defects))) ∧
      (valid = true → s.problem.solver = .exhaustive → maxSearchedNodes < g.nodes →
        (run g s.problem.solver draws).outcome =
          .error (.query (.oracle (.solver (.tooManyNodes g.nodes))))) ∧
      (valid = true → (s.problem.solver = .exhaustive → g.nodes ≤ maxSearchedNodes) →
        ∃ summary, (run g s.problem.solver draws).outcome = .ok summary ∧
          summary.IsOf g drawn) := by
  have hsamples : 1 ≤ g.samples := Number.le_of_count h.samples s.data.one_le_samples
  have hnodes : 1 ≤ g.nodes := Number.le_of_length h.nodes s.data.one_le_nodes
  have hnodeDims : 2 ≤ g.nodeDims := Number.le_of_length h.nodeDims s.data.two_le_nodeDims
  have hedgeDims : 1 ≤ g.edgeDims := Number.le_of_length h.edgeDims s.data.one_le_edgeDims
  obtain ⟨drawn, hgenerate, hdrawn⟩ := exists_samples (g := g) g.samples draws
  have hlength : drawn.length = g.samples := by
    rw [← hdrawn.length_eq, List.length_iterate]
  have hne : drawn ≠ [] := List.ne_nil_of_length_pos (by omega)
  obtain ⟨valid, hvalid, -⟩ := exists_isValid_of_drawn hdrawn hne (by omega) hedgeDims
  -- nothing fails before validation, and after it only the search can
  refine ⟨drawn, valid, hgenerate, hvalid, ?_, ?_, ?_⟩
  · rintro rfl
    obtain ⟨defects, hdefects, hverdict⟩ := map_eq_ok_iff.1 hvalid
    have hsome : defects ≠ [] := by
      rintro rfl
      cases hverdict
    exact ⟨defects, hsome, outcome_of_defects hgenerate hdefects hsome⟩
  · rintro rfl hsolver hmany
    obtain ⟨p, hp, huniform, -, hpsolver, -⟩ := exists_isUniform hdrawn hne
      ((Dataset.eq_true_iff_of_isValid hvalid).1 rfl) s.problem.solver
    rw [outcome_of_problem hgenerate hp huniform.ready,
      huniform.meanLoss_eq_error (hpsolver.trans hsolver) hmany]
    rfl
  · rintro rfl hsearch
    obtain ⟨p, hp, huniform, hpsamples, hpsolver, hlayout⟩ := exists_isUniform hdrawn hne
      ((Dataset.eq_true_iff_of_isValid hvalid).1 rfl) s.problem.solver
    obtain ⟨ones, hones, hbounds⟩ := huniform.exists_meanLoss_ones (hpsolver ▸ hsearch)
    refine ⟨_, ?_, isOf hdrawn hlength hne hnodes hpsamples hlayout hbounds⟩
    rw [outcome_of_problem hgenerate hp huniform.ready,
      huniform.meanLoss_zeros (hpsolver ▸ hsearch), hones]
    rfl

/-- Three dense graphs with three nodes. -/
def smallSettings : Settings where
  problem := ⟨.int 3, .minCut, by decide⟩
  data := {
    samples := .int 3
    nodes := .int 3
    nodeDims := .int 3
    edgeDims := .int 3
    pSame := .float 0.5
    pDiff := .int 0
    noise := .float 2
    representation := .dense
    one_le_samples := by decide
    one_le_nodes := by decide
    two_le_nodeDims := by decide
    one_le_edgeDims := by decide
    pSame_inUnit := by decide +kernel
    pDiff_inUnit := by decide
    zero_le_noise := by decide +kernel }
  seed := .int 42
  description := []
  tags := []

/-- The generator of three dense graphs with three nodes. -/
def smallGenerator : Generator Rat := ⟨3, 3, 3, 3, 1 / 2, 0, 2, .dense⟩

/-- Draws that join the first node to the last one. -/
def smallDraws : Draws Rat := ⟨.ofCycle [3 / 4, 1 / 4], .ofCycle [1, -1, 1 / 3]⟩

lemma isExact_smallSettings : smallSettings.data.IsExact smallGenerator where
  samples := rfl
  nodes := rfl
  nodeDims := rfl
  edgeDims := rfl
  pSame := by
    have hparts : Binary64.decode 0.5 = .finite false (2 ^ 52) (-53) := by decide +kernel
    show Binary64.value? 0.5 = some (1 / 2)
    rw [Binary64.value?, hparts]
    norm_num
  pDiff := rfl
  noise := by
    have hparts : Binary64.decode 2 = .finite false (2 ^ 52) (-51) := by decide +kernel
    show Binary64.value? 2 = some 2
    rw [Binary64.value?, hparts]
    norm_num
  kind := rfl

theorem outcome_run_smallSettings :
    ∃ summary, (run smallGenerator smallSettings.problem.solver smallDraws).outcome = .ok summary ∧
      summary.samples = 3 ∧ summary.meanLossZeros = 3 ∧ summary.meanLossOnes ≤ 3 ∧
      summary.edgeWeights = 3 ∧ summary.totalDims = 6 := by
  obtain ⟨drawn, valid, hgenerate, hvalid, -, -, hsummary⟩ :=
    outcome_run smallSettings smallGenerator isExact_smallSettings smallDraws
  have hparts : ((generate smallGenerator smallDraws).map fun drawn =>
      ((Dataset.ofSamples drawn).isValid, decide (∃ s ∈ drawn, s.graph.edges.pairs ≠ []))) =
      .ok (.ok true, true) := by
    decide +kernel
  rw [hgenerate] at hparts
  obtain ⟨htrue, hedge⟩ := Prod.mk.inj (Except.ok.inj hparts)
  obtain rfl : valid = true := Except.ok.inj (hvalid.symm.trans htrue)
  obtain ⟨summary, hrun, hof⟩ := hsummary rfl nofun
  have hweights : summary.edgeWeights = 3 :=
    (hof.edgeWeights_eq rfl).trans (if_pos (of_decide_eq_true hedge))
  refine ⟨summary, hrun, hof.samples_eq, hof.meanLossZeros_eq.trans ?_,
    hof.meanLossOnes_le.trans_eq ?_, hweights, ?_⟩
  · norm_num [smallGenerator]
  · norm_num [smallGenerator]
  · rw [hof.totalDims_eq rfl, hweights]
    rfl

end Experiment

end PottsOracle
