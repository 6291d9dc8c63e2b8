import PottsOracle.Proofs.Flow.Raised
import PottsOracle.Proofs.Potts.Monotone

/-!
# Raised potentials

If the potentials of a model are raised and it is scaled as before, its network is raised: the
source gives its nodes no less, the sink takes no more from them, and the couplings have the arcs
that they had (`PottsModel.ScaledAlike.isRaised_exactNetwork`).  So the source's side of the minimum
cut only grows, and with it the labeling (`PottsModel.minCutLabeling_below`).

Couplings may join any places here.  One that joins the source or the sink sets the capacity of its
pair in both networks, and a negative stray place on the source's side marks a node from the end.
-/

namespace PottsOracle

namespace PottsModel

/-! ## The labels of a larger side -/

section Labels

variable {K : Type} [Scalar K] {m : PottsModel K} {stray : List ℤ} {side side' : List Bool}

/-- More vertices on the source's side mark more nodes. -/
lemma marks_subset (h : Labeling.Below side side') :
    m.marks stray side ⊆ m.marks stray side' := by
  intro v hv
  obtain ⟨i, place, hget, honside, hneg, rfl⟩ := mem_marks_iff.1 hv
  exact mem_marks_iff.2 ⟨i, place, hget, h _ honside, hneg, rfl⟩

/-- If a cut has a labeling, a cut within it has one, too, and that lies below. -/
lemma exists_labelingOf_below (h : Labeling.Below side side') (hside : m.order ≤ side.length)
    (hside' : m.order ≤ side'.length) {y' : Labeling} (hy' : m.labelingOf stray side' = .ok y') :
    ∃ y, m.labelingOf stray side = .ok y ∧ Labeling.Below y y' := by
  obtain ⟨hnonneg, rfl⟩ := labelingOf_eq_ok_iff.1 hy'
  refine ⟨m.labels stray side, ?_, ?_⟩
  · exact labelingOf_eq_ok_iff.2 ⟨fun v hv => hnonneg v (marks_subset h hv), rfl⟩
  · intro i hi
    obtain ⟨hlt, hlabel | hmark⟩ := (getD_labels_iff hside).1 hi
    · exact (getD_labels_iff hside').2 ⟨hlt, Or.inl (h i hlabel)⟩
    · exact (getD_labels_iff hside').2 ⟨hlt, Or.inr (marks_subset h hmark)⟩

end Labels

variable {m m' : PottsModel Rat}

/-- Entries that are compared stand at the same positions. -/
lemma getD_le_getD {us vs : List Rat} (h : List.Forall₂ (· ≤ ·) us vs) (i : ℕ) :
    us.getD i 0 ≤ vs.getD i 0 := by
  induction h generalizing i with
  | nil => exact le_rfl
  | cons hle _ ih =>
    cases i with
    | zero => exact hle
    | succ i => exact ih i

/-! ## The network -/

lemma outside_of_mem_strayPlaces {arcs : List Arc} {v : ℤ} (h : v ∈ m.strayPlaces arcs) :
    ¬ (0 ≤ v ∧ v ≤ m.sink) := by
  rw [strayPlaces, List.mem_eraseDups, List.mem_filter, decide_eq_true_iff] at h
  exact h.2

/-- Only one vertex has the place of a node, of the source or of the sink. -/
lemma placeOf_ne {arcs : List Arc} {u : Fin (m.order + 2 + (m.strayPlaces arcs).length)} {k : ℕ}
    (hk : k < m.order + 2) (hu : (u : ℕ) ≠ k) : m.placeOf (m.strayPlaces arcs) u ≠ k := by
  rw [placeOf]
  split
  · exact_mod_cast hu
  · rename_i hstray
    have hlt : (u : ℕ) - (m.order + 2) < (m.strayPlaces arcs).length := by omega
    -- a stray place is below zero or beyond the sink
    have hout := outside_of_mem_strayPlaces (List.getElem_mem hlt)
    rw [List.getD_eq_getElem _ _ hlt]
    rw [sink_eq] at hout
    omega

namespace ScaledAlike

lemma source_eq (h : ScaledAlike m m') : m'.source = m.source := by
  rw [PottsModel.source_eq, PottsModel.source_eq, h.order_eq]

lemma sink_eq (h : ScaledAlike m m') : m'.sink = m.sink := by
  rw [PottsModel.sink_eq, PottsModel.sink_eq, h.order_eq]

lemma exactCouplingArcs_eq (h : ScaledAlike m m') :
    m'.exactCouplingArcs = m.exactCouplingArcs := by
  have harcs : m'.arcsOfCoupling = m.arcsOfCoupling := by
    funext c
    rw [arcsOfCoupling, arcsOfCoupling, units_congr h.maxCapacity_eq]
  rw [exactCouplingArcs, exactCouplingArcs, h.couplings_eq, harcs]

lemma strayPlaces_eq (h : ScaledAlike m m') :
    m'.strayPlaces m'.exactArcs = m.strayPlaces m.exactArcs := by
  rw [strayPlaces_exactArcs_eq, strayPlaces_exactArcs_eq, h.exactCouplingArcs_eq, strayPlaces,
    strayPlaces, h.sink_eq]

/-- The vertices have the same places. -/
lemma placeOf_eq (h : ScaledAlike m m') (u : ℕ) :
    m'.placeOf (m'.strayPlaces m'.exactArcs) u = m.placeOf (m.strayPlaces m.exactArcs) u := by
  rw [h.strayPlaces_eq, placeOf, placeOf, h.order_eq]

lemma card_eq (h : ScaledAlike m m') :
    m'.order + 2 + (m'.strayPlaces m'.exactArcs).length =
      m.order + 2 + (m.strayPlaces m.exactArcs).length := by
  rw [h.order_eq, h.strayPlaces_eq]

/-- An arc of a coupling hides those of nodes in both models alike. -/
lemma pairCapacity_exactArcs_le (h : ScaledAlike m m') {tail head : ℤ}
    (hnodes : pairCapacity m.exactNodeArcs tail head ≤ pairCapacity m'.exactNodeArcs tail head) :
    pairCapacity m.exactArcs tail head ≤ pairCapacity m'.exactArcs tail head := by
  rw [exactArcs, pairCapacity_append, exactArcs, pairCapacity_append, h.exactCouplingArcs_eq]
  cases lastArc? m.exactCouplingArcs tail head with
  | none => exact hnodes
  | some a => exact le_rfl

variable (h : ScaledAlike m m') (hle : ∀ i, m.potentials.getD i 0 ≤ m'.potentials.getD i 0)

include h hle

/-- The arcs of nodes have no less capacity than before, except those into the sink. -/
lemma pairCapacity_nodeArcs_le {tail head : ℤ} (hhead : head ≠ m.sink) :
    pairCapacity m.exactNodeArcs tail head ≤ pairCapacity m'.exactNodeArcs tail head := by
  by_cases htail : tail = m.source
  · subst htail
    rcases lt_or_ge head 0 with hneg | hnonneg
    · rw [pairCapacity_nodeArcs_of_neg (Or.inr hneg)]
      exact Nat.zero_le _
    · obtain ⟨i, rfl⟩ := Int.eq_ofNat_of_zero_le hnonneg
      have hcapacity := pairCapacity_nodeArcs_source (m := m) i
      have hcapacity' := pairCapacity_nodeArcs_source (m := m') i
      have hmore := h.quantisedPotential_le (hle i)
      rw [h.source_eq] at hcapacity'
      omega
  · rw [pairCapacity_nodeArcs_of_ne htail hhead]
    exact Nat.zero_le _

/-- The arcs of nodes have no more capacity than before, except those out of the source. -/
lemma pairCapacity_nodeArcs_ge {tail head : ℤ} (htail : tail ≠ m.source) :
    pairCapacity m'.exactNodeArcs tail head ≤ pairCapacity m.exactNodeArcs tail head := by
  by_cases hhead : head = m.sink
  · subst hhead
    rcases lt_or_ge tail 0 with hneg | hnonneg
    · rw [pairCapacity_nodeArcs_of_neg (Or.inl hneg)]
      exact Nat.zero_le _
    · obtain ⟨i, rfl⟩ := Int.eq_ofNat_of_zero_le hnonneg
      have hcapacity := pairCapacity_nodeArcs_sink (m := m) i
      have hcapacity' := pairCapacity_nodeArcs_sink (m := m') i
      have hmore := h.quantisedPotential_le (hle i)
      rw [h.sink_eq] at hcapacity'
      omega
  · rw [pairCapacity_nodeArcs_of_ne (h.source_eq ▸ htail) (h.sink_eq ▸ hhead)]
    exact Nat.zero_le _

/-- The network with larger potentials is raised. -/
theorem isRaised_exactNetwork :
    Network.IsRaised m.exactNetwork (m'.exactNetwork.cast h.card_eq) := by
  have hget' : ∀ u v, (m'.exactNetwork.cast h.card_eq).capacity.get u v =
      pairCapacity m'.exactArcs (m.placeOf (m.strayPlaces m.exactArcs) u)
        (m.placeOf (m.strayPlaces m.exactArcs) v) := by
    intro u v
    rw [Network.get_capacity_cast, get_exactNetwork, h.placeOf_eq, h.placeOf_eq]
    rfl
  refine ⟨?_, ?_, ?_, ?_⟩
  · ext
    rw [Network.val_source_cast]
    exact h.order_eq
  · ext
    rw [Network.val_sink_cast]
    exact congrArg (· + 1) h.order_eq
  · intro u v hv
    have hne := placeOf_ne (Nat.lt_succ_self (m.order + 1)) fun hsink => hv (Fin.ext hsink)
    rw [get_exactNetwork, hget']
    exact h.pairCapacity_exactArcs_le (h.pairCapacity_nodeArcs_le hle hne)
  · intro u v hu
    have hne := placeOf_ne (show m.order < m.order + 2 by omega) fun hsource => hu (Fin.ext hsource)
    rw [get_exactNetwork, hget']
    exact h.symm.pairCapacity_exactArcs_le (h.pairCapacity_nodeArcs_ge hle hne)

/-- A labeling of the minimum cut lies above that with smaller potentials, which there is, too. -/
lemma exists_minCutLabeling_below {y' : Labeling} (hy' : m'.minCutLabeling = .ok y') :
    ∃ y, m.minCutLabeling = .ok y ∧ Labeling.Below y y' := by
  by_cases horder : m.order = 0
  · have horder' : m'.order = 0 := h.order_eq.trans horder
    rw [minCutLabeling, if_pos horder'] at hy'
    exact ⟨y', by rw [minCutLabeling, if_pos horder, hy'], fun _ hi => hi⟩
  · by_cases hcapacity : m.maxCapacity = 0
    · have hall : m.minCutLabeling = m'.minCutLabeling := by
        simp [minCutLabeling, h.order_eq, h.maxCapacity_eq, horder, hcapacity]
      exact ⟨y', hall.trans hy', fun _ hi => hi⟩
    · have horder' : m'.order ≠ 0 := h.order_eq ▸ horder
      have hcapacity' : m'.maxCapacity ≠ 0 := h.maxCapacity_eq ▸ hcapacity
      rw [minCutLabeling_eq_labelingOf horder' hcapacity',
        labelingOf_congr h.order_eq h.strayPlaces_eq] at hy'
      rw [minCutLabeling_eq_labelingOf horder hcapacity]
      have hsides : Labeling.Below m.exactNetwork.sourceSide m'.exactNetwork.sourceSide := by
        intro i hi
        have hraised := (h.isRaised_exactNetwork hle).getD_sourceSide hi
        rwa [Network.sourceSide_cast] at hraised
      refine exists_labelingOf_below hsides ?_ ?_ hy'
      · rw [Network.length_sourceSide]
        omega
      · rw [Network.length_sourceSide, h.order_eq]
        omega

end ScaledAlike

/-! ## The labelings -/

/-- Stray places are places of couplings. -/
lemma exists_coupling_of_mem_strayPlaces {v : ℤ} (h : v ∈ m.strayPlaces m.exactArcs) :
    ∃ c ∈ m.couplings, v = c.first ∨ v = c.second := by
  rw [strayPlaces_exactArcs_eq, strayPlaces, List.mem_eraseDups] at h
  obtain ⟨a, ha, hv⟩ := List.mem_flatMap.1 (List.mem_filter.1 h).1
  obtain ⟨c, hc, hmem⟩ := List.mem_flatMap.1 ha
  refine ⟨c, hc, ?_⟩
  obtain ⟨htail, hhead⟩ | ⟨htail, hhead⟩ := ends_of_mem_arcsOfCoupling hmem
  · simpa [htail, hhead] using hv
  · simpa [htail, hhead, or_comm] using hv

/-- If couplings count back to nodes at most, the minimum cut has a labeling. -/
lemma exists_minCutLabeling
    (h : ∀ c ∈ m.couplings, -(m.order : ℤ) ≤ c.first ∧ -(m.order : ℤ) ≤ c.second) :
    ∃ y, m.minCutLabeling = .ok y := by
  by_cases horder : m.order = 0
  · exact ⟨[], by simp [minCutLabeling, horder]⟩
  · by_cases hcapacity : m.maxCapacity = 0
    · exact ⟨List.replicate m.order true, by simp [minCutLabeling, horder, hcapacity]⟩
    · rw [minCutLabeling_eq_labelingOf horder hcapacity]
      refine ⟨_, labelingOf_eq_ok_iff.2 ⟨?_, rfl⟩⟩
      intro v hv
      obtain ⟨i, place, hget, -, -, rfl⟩ := mem_marks_iff.1 hv
      obtain ⟨c, hc, hplace⟩ := exists_coupling_of_mem_strayPlaces (List.mem_of_getElem? hget)
      obtain ⟨hfirst, hsecond⟩ := h c hc
      omega

/-- If potentials grow and the largest capacity stays, as it does if the largest size of a potential
stays, then the minimum cut labels true what it labeled true before.  It has a labeling if it has
one with the larger potentials, and in both models if no coupling counts back beyond the nodes. -/
theorem minCutLabeling_below (hcouplings : m'.couplings = m.couplings)
    (hle : List.Forall₂ (· ≤ ·) m.potentials m'.potentials)
    (hmax : m'.maxCapacity = m.maxCapacity ∨
      Scalar.maximum? (m'.potentials.map Scalar.abs) =
        Scalar.maximum? (m.potentials.map Scalar.abs)) :
    (∀ y', m'.minCutLabeling = .ok y' →
      ∃ y, m.minCutLabeling = .ok y ∧ Labeling.Below y y') ∧
    ((∀ c ∈ m.couplings, -(m.order : ℤ) ≤ c.first ∧ -(m.order : ℤ) ≤ c.second) →
      ∃ y y', m.minCutLabeling = .ok y ∧ m'.minCutLabeling = .ok y' ∧ Labeling.Below y y') := by
  have horder : m'.order = m.order := hle.length_eq.symm
  have halike : ScaledAlike m m' := by
    refine ⟨horder, hcouplings, ?_⟩
    rcases hmax with hmax | hmax
    · exact hmax
    · rw [maxCapacity, maxCapacity, hmax, hcouplings]
  have hbelow : ∀ y', m'.minCutLabeling = .ok y' →
      ∃ y, m.minCutLabeling = .ok y ∧ Labeling.Below y y' :=
    fun y' hy' => halike.exists_minCutLabeling_below (getD_le_getD hle) hy'
  refine ⟨hbelow, fun hplaces => ?_⟩
  obtain ⟨y', hy'⟩ := exists_minCutLabeling (m := m') (by rwa [hcouplings, horder])
  obtain ⟨y, hy, hyy'⟩ := hbelow y' hy'
  exact ⟨y, y', hy, hy', hyy'⟩

/-- Four nodes with parallel couplings, a loop, and a coupling that counts back from the end. -/
def countedBackModel (u : Rat) : PottsModel Rat where
  potentials := [1, u, 0, -3]
  couplings := [⟨0, 1, 2⟩, ⟨1, 0, 1 / 2⟩, ⟨2, 2, 5⟩, ⟨-1, 1, 1⟩]
  not_hasNegative := by
    rw [HasNegative, Scalar.minimum?_any_lt_zero_iff]
    norm_num

theorem minCutLabeling_below_countedBackModel :
    List.Forall₂ (· ≤ ·) (countedBackModel (-2)).potentials (countedBackModel (5 / 2)).potentials ∧
      ∃ y y', (countedBackModel (-2)).minCutLabeling = .ok y ∧
        (countedBackModel (5 / 2)).minCutLabeling = .ok y' ∧ Labeling.Below y y' := by
  have hcouplings : (countedBackModel (5 / 2)).couplings = (countedBackModel (-2)).couplings := rfl
  have hle : List.Forall₂ (· ≤ ·) (countedBackModel (-2)).potentials
      (countedBackModel (5 / 2)).potentials := by
    simp only [countedBackModel, List.forall₂_cons, List.forall₂_nil_left_iff]
    norm_num
  have hmax : Scalar.maximum? ((countedBackModel (5 / 2)).potentials.map Scalar.abs) =
      Scalar.maximum? ((countedBackModel (-2)).potentials.map Scalar.abs) := by
    decide +kernel
  obtain ⟨-, hboth⟩ := minCutLabeling_below hcouplings hle (Or.inr hmax)
  exact ⟨hle, hboth (by decide)⟩

end PottsModel

end PottsOracle
