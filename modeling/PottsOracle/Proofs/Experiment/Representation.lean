import PottsOracle.Proofs.Experiment.Summary
import PottsOracle.Proofs.Synthetic.Representation

/-!
# Experiments in both representations

Experiments on the same data in both representations have the same mean losses, although the
layouts differ: a dense one has a place for every entry of a row, a sparse one only up to the last
entry that is not zero (`Experiment.outcome_inKind`).

Under weights that are all one the score of a vector is the sum of its row, whatever the layout and
the representation (`FeatureLayout.blockScore_ones`). So the Potts model of a sample is made of its
draws (`Experiment.rowModel`), and so is the loss of the labeling that is found.
-/

namespace PottsOracle

/-! ## Weights that are all one -/

open Synthetic Experiment

lemma Scalar.dot_replicate_one (xs : List Rat) :
    Scalar.dot (List.replicate xs.length 1) xs = xs.sum := by
  rw [dot_rat]
  induction xs with
  | nil => rfl
  | cons x xs ih =>
    rw [List.length_cons, List.replicate_succ, List.zipWith_cons_cons, List.sum_cons, ih, one_mul,
      List.sum_cons]

/-- The terms of a row have its sum. -/
lemma FeatureVector.sum_nonzeroTerms (row : List Rat) :
    ((nonzeroTerms row).map Prod.snd).sum = row.sum := by
  have hstands := standsFor_nonzeroTerms row
  rw [← Scalar.dot_replicate_one row, hstands.dot_eq List.length_replicate]
  refine congrArg List.sum (List.map_congr_left ?_)
  intro t ht
  obtain ⟨h0, hlt⟩ := hstands.place t ht
  rw [List.getD_replicate _ (by omega), one_mul]

namespace FeatureLayout

variable {layout : FeatureLayout} {block : FeatureBlock}

lemma blockWeights_ones (hdims : ∀ block, 0 ≤ layout.dims block) :
    layout.blockWeights block (weights layout.total .ones : List Rat) =
      List.replicate (layout.dims block).toNat 1 := by
  have hlength : ((weights layout.total .ones : List Rat).length : ℤ) = layout.total :=
    length_weights (total_nonneg hdims)
  rw [List.eq_replicate_iff]
  constructor
  · have hblock : ((layout.blockWeights block (weights layout.total .ones)).length : ℤ) =
        layout.dims block := length_blockWeights hlength (hdims .node) (hdims .edge)
    omega
  · intro w hw
    cases block with
    | node => exact List.eq_of_mem_replicate (List.mem_of_mem_drop hw)
    | edge => exact List.eq_of_mem_replicate (List.mem_of_mem_take hw)

/-- Under weights that are all one the score of a row is its sum, in either representation and in
every layout that it fits. -/
theorem blockScore_ones (hdims : ∀ block, 0 ≤ layout.dims block) {kind : FeatureKind}
    {row : List Rat} (hfits : layout.Fits block (vectorOf kind row)) :
    layout.blockScore block (weights layout.total .ones) (vectorOf kind row) = .ok row.sum := by
  have hlength : ((weights layout.total .ones : List Rat).length : ℤ) = layout.total :=
    length_weights (total_nonneg hdims)
  cases kind with
  | dense =>
    have hrow : (row.length : ℤ) = layout.dims block := hfits
    have hones : layout.blockWeights block (weights layout.total .ones) =
        List.replicate row.length (1 : Rat) := by
      rw [blockWeights_ones hdims, ← hrow, Int.toNat_natCast]
    refine blockScore_dense_eq_ok_iff.2 ⟨hrow, ?_, ?_⟩
    · rw [hones, List.length_replicate]
    · rw [hones, Scalar.dot_replicate_one]
  | sparse =>
    have hblock : ∀ t ∈ FeatureVector.nonzeroTerms row, layout.InBlock block t.1 := hfits
    have hsum := FeatureVector.sum_nonzeroTerms row
    refine blockScore_sparse_eq_ok_iff.2 ⟨hblock, _, ?_, hsum⟩
    rw [List.forall₂_map_right_iff, List.forall₂_same]
    intro t ht
    refine ⟨1, ?_, one_mul _⟩
    obtain ⟨h0, hlt⟩ := hblock t ht
    rw [weightAt_eq_of_inBlock hlength (hdims .node) (hdims .edge) (hblock t ht),
      blockWeights_ones hdims, List.getD_replicate _ (by omega)]

end FeatureLayout

namespace Experiment

/-! ## The loss of a sample -/

/-- The Potts model of a sample under weights that are all one, with the loss. -/
def rowModel (g : Generator Rat) (start : Draws Rat) : Except (PottsError Rat) (PottsModel Rat) :=
  PottsModel.ofLists
    (SeparationOracle.augmented ((nodeRows g start).map List.sum) (nextLabels g start))
    (integerPairs (nextEdges g start)) ((edgeRows g start).map List.sum)

/-- The loss of the labeling that a solver finds for it. -/
def rowLoss (g : Generator Rat) (solver : Solver) (start : Draws Rat) : Rat :=
  match (rowModel g start).toOption.bind fun m => (m.solve solver).toOption with
  | some y => Labeling.mistakes (nextLabels g start) y
  | none => 0

variable {g : Generator Rat} {p : Problem Rat} {s : Sample Rat} {start : Draws Rat} {nodes : ℕ}

/-- Vectors that are drawn and fit have the sums of their rows as scores. -/
lemma map_blockValue_ones {block : FeatureBlock} {kind : FeatureKind} {rows : List (List Rat)}
    (h : p.IsReady) (hfits : ∀ v ∈ rows.map (vectorOf kind), p.layout.Fits block v) :
    (rows.map (vectorOf kind)).map (p.layout.blockValue block (weights p.totalDims .ones)) =
      rows.map List.sum := by
  rw [List.map_map]
  refine List.map_congr_left ?_
  intro row hrow
  have hscore := FeatureLayout.blockScore_ones h.dims_nonneg (hfits _ (List.mem_map_of_mem hrow))
  exact FeatureLayout.blockValue_eq _ _ hscore

lemma pottsModel_ones (h : p.IsReady) (hs : s ∈ p.samples) (hdrawn : IsDrawn g start s) :
    SeparationOracle.pottsModel p.layout s.graph (weights p.totalDims .ones) (some s.truth) =
      (rowModel g start).mapError .potts := by
  have hlength : ((weights p.totalDims .ones : List Rat).length : ℤ) = p.totalDims :=
    length_weights (FeatureLayout.total_nonneg h.dims_nonneg)
  have hscored := h.scored hs hlength
  have htruth : ∀ t ∈ some s.truth, t.length = s.graph.order := by
    rintro _ ⟨⟩
    exact h.length_eq s hs
  have hnodes : SeparationOracle.nodeValues p.layout s.graph (weights p.totalDims .ones) =
      (nodeRows g start).map List.sum := by
    have hfits := h.fits s hs .node
    rw [LabeledGraph.vectors, hdrawn.nodes_eq] at hfits
    rw [SeparationOracle.nodeValues, hdrawn.nodes_eq, map_blockValue_ones h hfits]
  have hedges : SeparationOracle.edgeValues p.layout s.graph (weights p.totalDims .ones) =
      (edgeRows g start).map List.sum := by
    have hfits := h.fits s hs .edge
    rw [LabeledGraph.vectors, hdrawn.edgeVectors_eq] at hfits
    rw [SeparationOracle.edgeValues, hdrawn.edgeVectors_eq, map_blockValue_ones h hfits]
  rw [SeparationOracle.pottsModel_eq hscored htruth, hnodes, hedges, hdrawn.pairs_eq,
    hdrawn.truth_eq]
  rfl

/-- The constraint that a sample has under weights that are all one. -/
lemma exists_separate_ones (h : IsUniform p nodes) (hs : s ∈ p.samples) (hdrawn : IsDrawn g start s)
    (hsearch : p.solver = .exhaustive → nodes ≤ maxSearchedNodes) :
    ∃ c, p.separate s (weights p.totalDims .ones) = .ok c ∧ c.loss = rowLoss g p.solver start := by
  obtain ⟨m, hm⟩ := h.exists_pottsModel hs .ones
  have hmodel : rowModel g start = .ok m := by
    rw [pottsModel_ones h.ready hs hdrawn] at hm
    exact mapError_eq_ok_iff.1 hm
  obtain ⟨y, hfound, hy⟩ :=
    SeparationOracle.exists_labeling p.oracle hm (h.order_eq s hs ▸ hsearch)
  have hsolve : m.solve p.solver = .ok y := by
    rw [SeparationOracle.findLabeling_eq p.oracle hm] at hfound
    exact mapError_eq_ok_iff.1 hfound
  obtain ⟨psi, hpsi, -⟩ := h.ready.exists_vector hs hy
  have hlength : s.truth.length = y.length := (h.ready.length_eq s hs).trans hy.symm
  refine ⟨⟨Labeling.mistakes s.truth y, psi⟩, ?_, ?_⟩
  · rw [Problem.separate, SeparationOracle.solve_eq p.oracle hfound hlength hpsi]
    rfl
  · rw [rowLoss, hmodel, Except.toOption, Option.bind_some, hsolve, Except.toOption,
      hdrawn.truth_eq]

/-- Steps on one list find what is due for another list that goes along with it. -/
lemma exists_mapM_of_forall₂ {α β γ δ ε : Type} {r : α → β → Prop} {step : β → Except ε γ}
    {value : γ → δ} {due : α → δ} {as : List α} {bs : List β} (h : List.Forall₂ r as bs)
    (hstep : ∀ a, ∀ b ∈ bs, r a b → ∃ c, step b = .ok c ∧ value c = due a) :
    ∃ cs, bs.mapM step = .ok cs ∧ cs.map value = as.map due := by
  simp only [mapM_eq_ok_iff]
  induction h with
  | nil => exact ⟨[], .nil, rfl⟩
  | @cons a b as bs hab _ ih =>
    obtain ⟨c, hc, hvalue⟩ := hstep a b List.mem_cons_self hab
    obtain ⟨cs, hcs, hvalues⟩ := ih fun a' b' hb' => hstep a' b' (List.mem_cons_of_mem b hb')
    exact ⟨c :: cs, .cons hc hcs, by rw [List.map_cons, List.map_cons, hvalue, hvalues]⟩

/-- The mean loss under weights that are all one is the mean of losses that depend on the draws, and
neither on the representation nor on the layout. -/
theorem meanLoss_ones (h : IsUniform p nodes) {starts : List (Draws Rat)}
    (hdrawn : List.Forall₂ (IsDrawn g) starts p.samples)
    (hsearch : p.solver = .exhaustive → nodes ≤ maxSearchedNodes) :
    meanLoss p .ones = .ok (mean (starts.map (rowLoss g p.solver))) := by
  obtain ⟨constraints, hall, hlosses⟩ := exists_mapM_of_forall₂ hdrawn fun start s hs hstart =>
    exists_separate_ones h hs hstart hsearch
  rw [meanLoss, separateAll_weights h.totalDims_nonneg, hall, ← hlosses]
  rfl

/-! ## Both representations -/

/-- The mean losses of a summary. -/
def losses (summary : Summary Rat) : Rat × Rat := (summary.meanLossZeros, summary.meanLossOnes)

/-- If no row of a node vanishes, an experiment has the mean losses that its draws give, or too many
nodes for the search. -/
theorem losses_of_draws {solver : Solver} {draws : Draws Rat} {starts : List (Draws Rat)}
    {drawn : List (Sample Rat)} (hgenerate : generate g draws = .ok drawn)
    (hdrawn : List.Forall₂ (IsDrawn g) starts drawn) (hne : drawn ≠ []) (hnode : 0 < g.nodeDims)
    (hedge : 0 < g.edgeDims)
    (hrows : ∀ start ∈ starts, ∀ row ∈ nodeRows g start, ∃ x ∈ row, x ≠ 0) :
    (run g solver draws).outcome.map losses =
      if solver = .exhaustive ∧ maxSearchedNodes < g.nodes then
        .error (.query (.oracle (.solver (.tooManyNodes g.nodes))))
      else .ok (g.nodes, mean (starts.map (rowLoss g solver))) := by
  obtain ⟨valid, hvalid, hiff⟩ := exists_isValid_of_drawn hdrawn hne hnode hedge
  obtain rfl : valid = true := by
    refine hiff.2 (.inr ?_)
    intro start hstart row hrow
    obtain ⟨x, hx, hzero⟩ := hrows start hstart row hrow
    exact ⟨x, hx, by simpa using hzero⟩
  obtain ⟨p, hp, huniform, rfl, rfl, -⟩ := exists_isUniform hdrawn hne
    ((Dataset.eq_true_iff_of_isValid hvalid).1 rfl) solver
  rw [outcome_of_problem hgenerate hp huniform.ready]
  split
  · rename_i hmany
    rw [huniform.meanLoss_eq_error hmany.1 hmany.2]
    rfl
  · rename_i hsearch
    have hsearch : p.solver = .exhaustive → g.nodes ≤ maxSearchedNodes := by
      intro hsolver
      exact not_lt.1 fun hmany => hsearch ⟨hsolver, hmany⟩
    rw [huniform.meanLoss_zeros hsearch, meanLoss_ones huniform hdrawn hsearch]
    rfl

end Experiment

/-- The settings of an experiment on the same data in another representation. -/
def Settings.inKind (s : Settings) (kind : FeatureKind) : Settings :=
  { s with data := s.data.inKind kind }

lemma DataSettings.IsExact.inKind {s : DataSettings} {g : Generator Rat} (h : s.IsExact g)
    (kind : FeatureKind) : (s.inKind kind).IsExact (g.inKind kind) :=
  { h with kind := rfl }

namespace Experiment

variable {g : Generator Rat} {s : Settings}

/-- Without draws or without a generator an experiment fails, whatever the representation. -/
lemma outcome_runSettings_inKind (s : Settings) (draws : Except InputError (Draws Float)) :
    (∃ e, ∀ kind, (runSettings (s.inKind kind) draws).outcome = .error (.parameters e)) ∨
      ∃ (g : Generator Float) (start : Draws Float), draws = .ok start ∧
        ∀ kind, (s.inKind kind).data.generator = .ok (g.inKind kind) := by
  have hgenerator : ∀ kind, (s.inKind kind).data.generator = s.data.generator.map (·.inKind kind) :=
    s.data.generator_inKind
  cases draws with
  | error e =>
    refine .inl ⟨e, ?_⟩
    intro kind
    rw [runSettings, Reported.outcome_stage, Reported.outcome_ofOutcome]
  | ok start =>
    cases hg : s.data.generator with
    | error e =>
      refine .inl ⟨e, ?_⟩
      intro kind
      have hnone : (s.inKind kind).data.generator = .error e := by
        rw [hgenerator kind, hg]
        rfl
      simp only [runSettings, hnone, Reported.outcome_stage, Reported.outcome_ofOutcome]
    | ok g =>
      refine .inr ⟨g, start, rfl, ?_⟩
      intro kind
      rw [hgenerator kind, hg]
      rfl

/-- If no node vector of the dense data vanishes, the experiments have the same mean losses, or fail
for the same reason. -/
lemma losses_inKind (h : s.data.IsExact g) {draws : Draws Rat} {dense : List (Sample Rat)}
    (hdense : generate (g.inKind .dense) draws = .ok dense)
    (hnodes : ∀ t ∈ dense, ∀ v ∈ t.graph.nodes, ∃ x ∈ v.entries, x ≠ 0) (solver : Solver) :
    (run (g.inKind .sparse) solver draws).outcome.map losses =
      (run (g.inKind .dense) solver draws).outcome.map losses := by
  have hsamples : 1 ≤ g.samples := Number.le_of_count h.samples s.data.one_le_samples
  have hnodeDims : 2 ≤ g.nodeDims := Number.le_of_length h.nodeDims s.data.two_le_nodeDims
  have hedgeDims : 1 ≤ g.edgeDims := Number.le_of_length h.edgeDims s.data.one_le_edgeDims
  have hrows : ∀ start ∈ List.iterate (rest g) draws g.samples, ∀ row ∈ nodeRows g start,
      ∃ x ∈ row, x ≠ 0 := by
    obtain ⟨drawn, hgenerate, hdrawn⟩ := exists_generate g draws .dense
    obtain rfl := Except.ok.inj (hdense.symm.trans hgenerate)
    refine forall_mem_of_forall₂ hdrawn.flip ?_
    intro t ht start hstart row hrow
    refine hnodes t ht (vectorOf .dense row) ?_
    rw [hstart.nodes_eq]
    exact List.mem_map_of_mem hrow
  have hkind : ∀ kind, (run (g.inKind kind) solver draws).outcome.map losses =
      if solver = .exhaustive ∧ maxSearchedNodes < g.nodes then
        .error (.query (.oracle (.solver (.tooManyNodes g.nodes))))
      else .ok (g.nodes,
        mean ((List.iterate (rest g) draws g.samples).map (rowLoss g solver))) := by
    intro kind
    obtain ⟨drawn, hgenerate, hdrawn⟩ := exists_generate g draws kind
    have hne : drawn ≠ [] := by
      refine List.ne_nil_of_length_pos ?_
      rw [← hdrawn.length_eq, List.length_iterate]
      omega
    exact losses_of_draws hgenerate hdrawn hne (two_pos.trans_le hnodeDims) hedgeDims hrows
  rw [hkind, hkind]

/-- The representation has no influence on an experiment. Settings that differ in it only give
generators or fail alike, and from the same draws they generate the same labels, edges and vectors.
In exact arithmetic their experiments have the same mean losses, or fail for the same reason, unless
a node vector vanishes. -/
theorem outcome_inKind (s : Settings) :
    (∀ draws : Except InputError (Draws Float),
      (∃ e, ∀ kind, (runSettings (s.inKind kind) draws).outcome = .error (.parameters e)) ∨
      ∃ (g : Generator Float) (start : Draws Float) (dense sparse : List (Sample Float)),
        draws = .ok start ∧
        (∀ kind, (s.inKind kind).data.generator = .ok (g.inKind kind)) ∧
        generate (g.inKind .dense) start = .ok dense ∧
        generate (g.inKind .sparse) start = .ok sparse ∧
        List.Forall₂ Sample.IsSparseCopy sparse dense) ∧
    ∀ g : Generator Rat, s.data.IsExact g → ∀ draws : Draws Rat, ∃ dense sparse,
      (∀ kind, (s.inKind kind).data.IsExact (g.inKind kind)) ∧
      generate (g.inKind .dense) draws = .ok dense ∧
      generate (g.inKind .sparse) draws = .ok sparse ∧
      List.Forall₂ Sample.IsSparseCopy sparse dense ∧
      ((∀ t ∈ dense, ∀ v ∈ t.graph.nodes, ∃ x ∈ v.entries, x ≠ 0) →
        (run (g.inKind .sparse) s.problem.solver draws).outcome.map losses =
          (run (g.inKind .dense) s.problem.solver draws).outcome.map losses) := by
  constructor
  · intro draws
    rcases outcome_runSettings_inKind s draws with hfail | ⟨g, start, rfl, hgenerator⟩
    · exact .inl hfail
    · obtain ⟨dense, sparse, hdense, hsparse, hcopies⟩ := exists_generate_inKind g start
      exact .inr ⟨g, start, dense, sparse, rfl, hgenerator, hdense, hsparse, hcopies⟩
  · intro g h draws
    obtain ⟨dense, sparse, hdense, hsparse, hcopies⟩ := exists_generate_inKind g draws
    exact ⟨dense, sparse, h.inKind, hdense, hsparse, hcopies,
      fun hnodes => losses_inKind h hdense hnodes s.problem.solver⟩

/-- Without noise a node vector has a single entry that is not zero: sparse data need three weights
where dense data need six. -/
def quietSettings : Settings :=
  { smallSettings with
    data := { smallSettings.data with noise := .int 0, zero_le_noise := by decide } }

/-- The generator of three graphs without noise. -/
def quietGenerator : Generator Rat := { smallGenerator with noise := 0 }

theorem outcome_inKind_quietSettings :
    ∃ dense sparse, (run (quietGenerator.inKind .dense) .minCut smallDraws).outcome = .ok dense ∧
      (run (quietGenerator.inKind .sparse) .minCut smallDraws).outcome = .ok sparse ∧
      dense.totalDims = 6 ∧ sparse.totalDims = 3 ∧ losses sparse = losses dense := by
  have hexact : quietSettings.data.IsExact quietGenerator :=
    { isExact_smallSettings with noise := rfl }
  obtain ⟨-, hsame⟩ := outcome_inKind quietSettings
  obtain ⟨drawn, _, -, hgenerate, -, -, hlosses⟩ := hsame quietGenerator hexact smallDraws
  have htotal : (run (quietGenerator.inKind .dense) .minCut smallDraws).outcome.map (·.totalDims) =
        .ok 6 ∧
      (run (quietGenerator.inKind .sparse) .minCut smallDraws).outcome.map (·.totalDims) =
        .ok 3 := by
    decide +kernel
  have hnodes : (generate (quietGenerator.inKind .dense) smallDraws).map (fun drawn =>
      decide (∀ t ∈ drawn, ∀ v ∈ t.graph.nodes, ∃ x ∈ v.entries, x ≠ 0)) = .ok true := by
    decide +kernel
  rw [hgenerate] at hnodes
  obtain ⟨dense, hdense, hdims⟩ := map_eq_ok_iff.1 htotal.1
  obtain ⟨sparse, hsparse, hdims'⟩ := map_eq_ok_iff.1 htotal.2
  have hsolver : quietSettings.problem.solver = .minCut := rfl
  have hequal := hlosses (of_decide_eq_true (Except.ok.inj hnodes))
  rw [hsolver, hdense, hsparse] at hequal
  exact ⟨dense, sparse, hdense, hsparse, hdims, hdims', Except.ok.inj hequal⟩

end Experiment

end PottsOracle
