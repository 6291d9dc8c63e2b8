import Mathlib.Data.List.GetD
import PottsOracle.Proofs.Flow.Cut
import PottsOracle.Proofs.Potts.Arcs
import PottsOracle.Proofs.Potts.Labels

/-!
# The minimum cut is the greatest optimum

A labeling is a cut of the network: the true nodes are on the side of the source.  Capacity of the
cut and quantised objective of the labeling have a constant sum (`PottsModel.cutCapacity_add`), so
that cuts of least capacity are labelings of largest objective, and the largest such cut is the
greatest such labeling.
-/

namespace PottsOracle

namespace Labeling

/-- Every node that is true in the first labeling is true in the second. -/
def Below (z y : Labeling) : Prop := ∀ i, z.getD i false = true → y.getD i false = true

/-- A labeling of largest score that is above all others of largest score. -/
structure IsGreatestOptimum (order : Nat) (score : Labeling → ℤ) (y : Labeling) : Prop where
  length_eq : y.length = order
  le : ∀ z, z.length = order → score z ≤ score y
  below : ∀ z, z.length = order → score z = score y → Below z y

end Labeling

namespace PottsModel

variable {m : PottsModel Rat}

/-! ## Labelings as cuts -/

/-- The network of all arcs. -/
def exactNetwork (m : PottsModel Rat) :
    Network (m.order + 2 + (m.strayPlaces m.exactArcs).length) :=
  m.network m.exactArcs

/-- The capacity of two vertices is that of their places. -/
lemma get_exactNetwork (u v : Fin (m.order + 2 + (m.strayPlaces m.exactArcs).length)) :
    m.exactNetwork.capacity.get u v =
      pairCapacity m.exactArcs (m.placeOf (m.strayPlaces m.exactArcs) u)
        (m.placeOf (m.strayPlaces m.exactArcs) v) := by
  rw [exactNetwork, network, Grid.get_ofRows]
  rfl

/-- A vertex is on the source's side: the source itself, or a true node. -/
def OnSide (m : PottsModel Rat) (y : Labeling) (u : Nat) : Prop :=
  u = m.order ∨ y.getD u false = true

instance (m : PottsModel Rat) (y : Labeling) (u : Nat) : Decidable (m.OnSide y u) :=
  inferInstanceAs (Decidable (_ ∨ _))

/-- The vertices on the source's side of a labeling. -/
def sideOf (m : PottsModel Rat) (y : Labeling) :
    Finset (Fin (m.order + 2 + (m.strayPlaces m.exactArcs).length)) :=
  Finset.univ.filter fun u => m.OnSide y u

lemma mem_sideOf {y : Labeling} {u : Fin (m.order + 2 + (m.strayPlaces m.exactArcs).length)} :
    u ∈ m.sideOf y ↔ m.OnSide y u := by
  simp [sideOf]

lemma onSide_node_iff {y : Labeling} {i : Nat} (hi : i < m.order) :
    m.OnSide y i ↔ y.getD i false = true := by
  rw [OnSide]
  constructor
  · rintro (h | h)
    · omega
    · exact h
  · exact Or.inr

lemma not_onSide_sink {y : Labeling} (hy : y.length = m.order) : ¬ m.OnSide y (m.order + 1) := by
  rintro (h | h)
  · omega
  · have hlt := Labeling.lt_length_of_getD h
    omega

lemma isCut_sideOf {y : Labeling} (hy : y.length = m.order) :
    m.exactNetwork.IsCut (m.sideOf y) := by
  constructor
  · rw [mem_sideOf]
    exact Or.inl rfl
  · rw [mem_sideOf]
    exact not_onSide_sink hy

variable (hm : m.JoinsNodes)

include hm

lemma card_vertices : m.order + 2 + (m.strayPlaces m.exactArcs).length = m.order + 2 := by
  rw [strayPlaces_exactArcs hm]
  rfl

lemma get_exactNetwork_eq (u v : Fin (m.order + 2 + (m.strayPlaces m.exactArcs).length)) :
    m.exactNetwork.capacity.get u v = pairCapacity m.exactArcs (u : Nat) (v : Nat) := by
  have hplace : ∀ x : Fin (m.order + 2 + (m.strayPlaces m.exactArcs).length),
      m.placeOf (m.strayPlaces m.exactArcs) x = (x : Nat) := by
    intro x
    have hcard := card_vertices hm
    rw [placeOf, if_pos (by omega)]
  rw [get_exactNetwork, hplace, hplace]

/-- The capacity of a cut, as a sum over vertex numbers. -/
lemma cutCapacity_eq_sum_range (y : Labeling) :
    cutCapacity m.exactNetwork.capacity (m.sideOf y) =
      ∑ u ∈ Finset.range (m.order + 2), ∑ v ∈ Finset.range (m.order + 2),
        if m.OnSide y u ∧ ¬ m.OnSide y v then (pairCapacity m.exactArcs u v : ℤ) else 0 := by
  rw [cutCapacity]
  simp only [mem_sideOf, get_exactNetwork_eq hm]
  rw [Fin.sum_univ_eq_sum_range (fun u => ∑ v : Fin _,
    if m.OnSide y u ∧ ¬ m.OnSide y v then (pairCapacity m.exactArcs u (v : Nat) : ℤ) else 0)]
  rw [card_vertices hm]
  refine Finset.sum_congr rfl fun u _ => ?_
  rw [Fin.sum_univ_eq_sum_range (fun v =>
    if m.OnSide y u ∧ ¬ m.OnSide y v then (pairCapacity m.exactArcs u v : ℤ) else 0)]

/-- Out of a node the cut pays for its pairs with false nodes, and for a negative potential, if the
node is true. -/
lemma sum_from_node {y : Labeling} (hy : y.length = m.order) {i : Nat} (hi : i < m.order) :
    (∑ v ∈ Finset.range (m.order + 2),
        if m.OnSide y i ∧ ¬ m.OnSide y v then (pairCapacity m.exactArcs i v : ℤ) else 0) =
      (∑ j ∈ Finset.range m.order,
        if y.getD i false = true ∧ ¬ y.getD j false = true then m.quantisedWeight i j else 0)
      + if y.getD i false then max (-m.quantisedPotential i) 0 else 0 := by
  have hsource : m.OnSide y m.order := Or.inl rfl
  have hsink := not_onSide_sink (m := m) hy
  have hcapacity : (pairCapacity m.exactArcs i (m.order + 1 : Nat) : ℤ) = _ := pairCapacity_sink hm i
  rw [Finset.sum_range_succ, Finset.sum_range_succ]
  simp only [hsource, hsink, not_true, not_false_eq_true, and_false, and_true, if_false, add_zero,
    onSide_node_iff hi, hcapacity]
  congr 1
  refine Finset.sum_congr rfl fun j hj => ?_
  rw [Finset.mem_range] at hj
  simp only [onSide_node_iff hj]
  split
  · rename_i hlabels
    -- no node is on both sides
    have hij : i ≠ j := fun h => hlabels.2 (h ▸ hlabels.1)
    exact pairCapacity_nodes hi hj hij
  · rfl

/-- Out of the source the cut pays for the positive potentials of false nodes. -/
lemma sum_from_source {y : Labeling} (hy : y.length = m.order) :
    (∑ v ∈ Finset.range (m.order + 2),
        if m.OnSide y m.order ∧ ¬ m.OnSide y v then
          (pairCapacity m.exactArcs (m.order : Nat) v : ℤ) else 0) =
      ∑ i ∈ Finset.range m.order, if y.getD i false then 0 else max (m.quantisedPotential i) 0 := by
  have hsource : m.OnSide y m.order := Or.inl rfl
  have hsink := not_onSide_sink (m := m) hy
  have hzero : pairCapacity m.exactArcs (m.order : Nat) (m.order + 1 : Nat) = 0 :=
    pairCapacity_source_sink hm
  rw [Finset.sum_range_succ, Finset.sum_range_succ]
  simp only [hsource, hsink, not_true, not_false_eq_true, true_and, and_false, and_true,
    if_true, if_false, hzero, Nat.cast_zero, add_zero]
  refine Finset.sum_congr rfl fun j hj => ?_
  rw [Finset.mem_range] at hj
  have hcapacity : (pairCapacity m.exactArcs (m.order : Nat) (j : Nat) : ℤ) = _ :=
    pairCapacity_source hm j
  simp only [onSide_node_iff hj, hcapacity]
  cases y.getD j false <;> simp

/-- A cut pays for the false nodes with positive potentials, the true nodes with negative ones, and
the pairs that lead from a true node to a false one. -/
lemma cutCapacity_sideOf {y : Labeling} (hy : y.length = m.order) :
    cutCapacity m.exactNetwork.capacity (m.sideOf y) =
      ∑ i ∈ Finset.range m.order,
          (if y.getD i false then max (-m.quantisedPotential i) 0
            else max (m.quantisedPotential i) 0)
        + ∑ i ∈ Finset.range m.order, ∑ j ∈ Finset.range m.order,
            if y.getD i false = true ∧ ¬ y.getD j false = true then m.quantisedWeight i j else 0 := by
  have hnodes : ∀ i ∈ Finset.range m.order, _ := fun i hi =>
    sum_from_node hm hy (Finset.mem_range.1 hi)
  -- out of the sink nothing is paid: it is on the other side
  rw [cutCapacity_eq_sum_range hm, Finset.sum_range_succ, Finset.sum_range_succ,
    sum_from_source hm hy, Finset.sum_congr rfl hnodes, Finset.sum_add_distrib]
  simp only [not_onSide_sink hy, false_and, if_false, Finset.sum_const_zero, add_zero]
  rw [add_assoc, ← Finset.sum_add_distrib, add_comm]
  congr 1
  refine Finset.sum_congr rfl fun i _ => ?_
  cases y.getD i false <;> simp

omit hm

/-! ## Capacity and objective -/

/-- A symmetric weight over the ordered pairs from a true node to a false one, as a sum over the
unordered pairs with different labels. -/
lemma sum_disagreeing {w : Nat → Nat → ℤ} (hw : ∀ i j, w i j = w j i) (y : Labeling) (n : Nat) :
    (∑ i ∈ Finset.range n, ∑ j ∈ Finset.range n,
        if y.getD i false = true ∧ ¬ y.getD j false = true then w i j else 0) =
      ∑ i ∈ Finset.range n, ∑ j ∈ Finset.range i,
        if y.getD i false = y.getD j false then 0 else w i j := by
  induction n with
  | zero => simp
  | succ n ih =>
    have hcolumn : ∀ i ∈ Finset.range n, (∑ j ∈ Finset.range (n + 1),
        if y.getD i false = true ∧ ¬ y.getD j false = true then w i j else 0) =
          (∑ j ∈ Finset.range n,
            if y.getD i false = true ∧ ¬ y.getD j false = true then w i j else 0)
          + if y.getD i false = true ∧ ¬ y.getD n false = true then w i n else 0 :=
      fun i _ => Finset.sum_range_succ _ n
    have hlast : ¬ (y.getD n false = true ∧ ¬ y.getD n false = true) := fun h => h.2 h.1
    -- the new row and the new column together have every new pair once
    have hrow : (∑ j ∈ Finset.range n,
        if y.getD n false = true ∧ ¬ y.getD j false = true then w n j else 0) +
          (∑ i ∈ Finset.range n,
            if y.getD i false = true ∧ ¬ y.getD n false = true then w i n else 0) =
        ∑ j ∈ Finset.range n, if y.getD n false = y.getD j false then 0 else w n j := by
      rw [← Finset.sum_add_distrib]
      refine Finset.sum_congr rfl fun i _ => ?_
      rw [hw i n]
      cases y.getD i false <;> cases y.getD n false <;> simp
    rw [Finset.sum_range_succ, Finset.sum_congr rfl hcolumn, Finset.sum_add_distrib, ih,
      Finset.sum_range_succ, if_neg hlast, add_zero, Finset.sum_range_succ, ← hrow]
    ring

/-- The objective of a labeling that could have every gain at once. -/
def ceiling (m : PottsModel Rat) : ℤ :=
  ∑ i ∈ Finset.range m.order, max (m.quantisedPotential i) 0
    + ∑ i ∈ Finset.range m.order, ∑ j ∈ Finset.range i, m.quantisedWeight i j

include hm

/-- What a labeling misses of all gains is the capacity of its cut. -/
theorem cutCapacity_add {y : Labeling} (hy : y.length = m.order) :
    cutCapacity m.exactNetwork.capacity (m.sideOf y) + m.quantisedScore y = m.ceiling := by
  rw [cutCapacity_sideOf hm hy, sum_disagreeing quantisedWeight_comm, quantisedScore, ceiling,
    add_add_add_comm, ← Finset.sum_add_distrib, ← Finset.sum_add_distrib]
  congr 1
  · refine Finset.sum_congr rfl fun i _ => ?_
    cases y.getD i false with
    | false => simp
    | true =>
      simp only [if_true]
      omega
  · refine Finset.sum_congr rfl fun i _ => ?_
    rw [← Finset.sum_add_distrib]
    refine Finset.sum_congr rfl fun j _ => ?_
    split
    · exact zero_add _
    · exact add_zero _

/-! ## The labeling of the largest minimum cut -/

/-- The labels of the nodes on the source's side. -/
lemma sideOf_take_sourceSide :
    m.sideOf (m.exactNetwork.sourceSide.take m.order) = m.exactNetwork.sourceSet := by
  have hcut := m.exactNetwork.isLargestMinCut_sourceSet.isCut
  ext u
  rw [mem_sideOf]
  have hcard := card_vertices hm
  have hlabel : (u : Nat) < m.order →
      (m.exactNetwork.sourceSide.take m.order).getD u false =
        decide (u ∈ m.exactNetwork.sourceSet) := by
    intro hnode
    rw [← Network.getD_sourceSide, List.getD_eq_getElem?_getD, List.getElem?_take_of_lt hnode,
      List.getD_eq_getElem?_getD]
  rcases lt_trichotomy (u : Nat) m.order with hnode | hsource | hsink
  · rw [onSide_node_iff hnode, hlabel hnode, decide_eq_true_eq]
  · have husource : u = m.exactNetwork.source := Fin.ext hsource
    rw [husource]
    exact ⟨fun _ => hcut.source_mem, fun _ => Or.inl rfl⟩
  · have husink : u = m.exactNetwork.sink := Fin.ext (show (u : Nat) = m.order + 1 by omega)
    rw [husink]
    refine ⟨fun h => ?_, fun h => absurd h hcut.sink_notMem⟩
    refine absurd h (not_onSide_sink ?_)
    rw [List.length_take, Network.length_sourceSide]
    omega

/-- The nodes on the source's side are the greatest optimum. -/
lemma isGreatestOptimum_take_sourceSide :
    Labeling.IsGreatestOptimum m.order m.quantisedScore
      (m.exactNetwork.sourceSide.take m.order) := by
  have hlength : (m.exactNetwork.sourceSide.take m.order).length = m.order := by
    rw [List.length_take, Network.length_sourceSide]
    omega
  have hcut := m.exactNetwork.isLargestMinCut_sourceSet
  rw [← sideOf_take_sourceSide hm] at hcut
  have hown := cutCapacity_add hm hlength
  refine ⟨hlength, ?_, ?_⟩
  · intro z hz
    have hother := cutCapacity_add hm hz
    have hle := hcut.le _ (isCut_sideOf hz)
    omega
  · intro z hz hscore i hi
    have hother := cutCapacity_add hm hz
    have hsub := hcut.subset _ (isCut_sideOf hz) (by omega)
    -- a true node of the other labeling is on the other side, so on this one
    have hnode : i < m.order := hz ▸ Labeling.lt_length_of_getD hi
    let node : Fin (m.order + 2 + (m.strayPlaces m.exactArcs).length) := ⟨i, by omega⟩
    have hother : m.OnSide z node := (onSide_node_iff hnode).2 hi
    have hside : node ∈ m.sideOf (m.exactNetwork.sourceSide.take m.order) :=
      hsub (mem_sideOf.2 hother)
    exact (onSide_node_iff hnode).1 (mem_sideOf.1 hside)

omit hm

/-- The minimum cut labels all nodes. -/
lemma length_of_minCutLabeling {K : Type} [Scalar K] {m : PottsModel K} {y : Labeling}
    (h : m.minCutLabeling = .ok y) : y.length = m.order := by
  rw [minCutLabeling] at h
  split at h
  · rename_i horder
    cases h
    exact horder.symm
  · split at h
    · cases h
      exact List.length_replicate
    · obtain ⟨arcs, -, h⟩ := bind_eq_ok_iff.1 h
      obtain ⟨z, hz, h⟩ := bind_eq_ok_iff.1 h
      have hlength := length_of_labelingOf (by rw [Network.length_sourceSide]; omega) hz
      split at h
      · cases h
      · cases h
        exact hlength

/-- The sizes of the potentials, the weights, and zero. -/
def capacities (m : PottsModel Rat) : Set Rat :=
  insert 0 ({x | ∃ u ∈ m.potentials, |u| = x} ∪ {x | ∃ c ∈ m.couplings, c.weight = x})

/-- The largest capacity is the size of a potential or a weight, or zero, and nothing of these is
larger. -/
theorem isGreatest_maxCapacity (m : PottsModel Rat) : IsGreatest m.capacities m.maxCapacity := by
  have hpotentials : IsGreatest (insert 0 {x | ∃ u ∈ m.potentials, |u| = x})
      ((Scalar.maximum? (m.potentials.map Scalar.abs)).getD 0) := by
    have hnonneg : ∀ x ∈ m.potentials.map Scalar.abs, 0 ≤ x := by simp
    simpa using Scalar.isGreatest_maximum? hnonneg
  have hweights : IsGreatest (insert 0 {x | ∃ c ∈ m.couplings, c.weight = x})
      ((Scalar.maximum? (m.couplings.map (·.weight))).getD 0) := by
    have hnonneg : ∀ x ∈ m.couplings.map (·.weight), 0 ≤ x := by
      simpa using fun c hc => m.weight_nonneg hc
    simpa using Scalar.isGreatest_maximum? hnonneg
  rw [maxCapacity, Scalar.larger_rat, capacities, Set.insert_union_distrib]
  exact hpotentials.union hweights

lemma maxCapacity_nonneg (m : PottsModel Rat) : 0 ≤ m.maxCapacity :=
  m.isGreatest_maxCapacity.2 (Set.mem_insert 0 _)

lemma abs_le_maxCapacity {u : Rat} (h : u ∈ m.potentials) : |u| ≤ m.maxCapacity :=
  m.isGreatest_maxCapacity.2 (Or.inr (Or.inl ⟨u, h, rfl⟩))

lemma weight_le_maxCapacity {c : Coupling Rat} (h : c ∈ m.couplings) :
    c.weight ≤ m.maxCapacity :=
  m.isGreatest_maxCapacity.2 (Or.inr (Or.inr ⟨c, h, rfl⟩))

lemma scale_eq : m.scale = 2 ^ 40 / m.maxCapacity := by
  rw [scale, resolution, Scalar.ofNat_rat]
  norm_num

/-- Models with the same largest capacity are scaled by the same factor. -/
lemma units_congr {m' : PottsModel Rat} (h : m'.maxCapacity = m.maxCapacity) :
    m'.units = m.units := by
  funext x
  rw [units, units, scale_eq, scale_eq, h]

/-- If there is no capacity at all, every labeling has the objective zero. -/
lemma quantisedScore_eq_zero (h : m.maxCapacity = 0) (y : Labeling) : m.quantisedScore y = 0 := by
  have hpotential : ∀ i, m.quantisedPotential i = 0 := by
    intro i
    cases hget : m.potentials[i]? with
    | none => simp [quantisedPotential, List.getD_eq_getElem?_getD, hget]
    | some u =>
      have hu : |u| ≤ 0 := h ▸ abs_le_maxCapacity (List.mem_of_getElem? hget)
      rw [quantisedPotential_eq hget, if_pos (abs_nonpos_iff.1 hu)]
  have hweight : ∀ i j, m.quantisedWeight i j = 0 := by
    intro i j
    have hnone : m.couplings.reverse.find? (fun c => c.weight ≠ 0 ∧ c.Joins i j) = none := by
      rw [List.find?_eq_none]
      intro c hc
      have hmem := List.mem_reverse.1 hc
      have hzero : c.weight = 0 :=
        le_antisymm (h ▸ weight_le_maxCapacity hmem) (m.weight_nonneg hmem)
      simp [hzero]
    rw [quantisedWeight, lastWeight?, hnone]
    rfl
  simp [quantisedScore, hpotential, hweight]

/-- If there are nodes and some capacity, the minimum cut is that of the network of all arcs. -/
lemma minCutLabeling_eq_labelingOf (horder : m.order ≠ 0) (hcapacity : m.maxCapacity ≠ 0) :
    m.minCutLabeling =
      m.labelingOf (m.strayPlaces m.exactArcs) m.exactNetwork.sourceSide := by
  have hscale : m.scale ≠ 0 := by
    rw [scale_eq]
    exact div_ne_zero (by norm_num) hcapacity
  rw [minCutLabeling, if_neg horder, Scalar.eq_rat, if_neg (by simpa using hcapacity), arcs_eq,
    Scalar.eq_rat, decide_eq_false hscale]
  show (m.labelingOf (m.strayPlaces m.exactArcs) m.exactNetwork.sourceSide >>= pure) = _
  exact bind_pure _

/-- The minimum cut finds a labeling, and it is the greatest one of largest quantised objective. -/
lemma minCutLabeling_eq (hm : m.JoinsNodes) :
    ∃ y, m.minCutLabeling = .ok y ∧ Labeling.IsGreatestOptimum m.order m.quantisedScore y := by
  by_cases horder : m.order = 0
  · refine ⟨[], by simp [minCutLabeling, horder], ?_⟩
    rw [horder]
    refine ⟨rfl, ?_, ?_⟩
    · intro z hz
      rw [List.length_eq_zero_iff.1 hz]
    · intro z hz _
      rw [List.length_eq_zero_iff.1 hz]
      exact fun i hi => hi
  · by_cases hcapacity : m.maxCapacity = 0
    · -- all labelings are optimal, and no labeling is above the one that is true everywhere
      refine ⟨List.replicate m.order true, by simp [minCutLabeling, horder, hcapacity], ?_⟩
      refine ⟨List.length_replicate, ?_, ?_⟩
      · intro z _
        rw [quantisedScore_eq_zero hcapacity, quantisedScore_eq_zero hcapacity]
      · intro z hz _ i hi
        have hnode : i < m.order := hz ▸ Labeling.lt_length_of_getD hi
        simp [List.getD_eq_getElem?_getD, hnode]
    · refine ⟨m.exactNetwork.sourceSide.take m.order, ?_, isGreatestOptimum_take_sourceSide hm⟩
      rw [minCutLabeling_eq_labelingOf horder hcapacity, labelingOf_eq (strayPlaces_exactArcs hm)]

/-- The minimum cut never fails on couplings between nodes, and of all labelings of largest quantised
objective it finds the greatest one.  Couplings may be parallel, reversed or loops, and there may be
no node or no capacity at all. -/
theorem minCutLabeling_greatest (m : PottsModel Rat) (hm : m.JoinsNodes) :
    ∃ y, m.minCutLabeling = .ok y ∧ y.length = m.order ∧
      ∀ z : Labeling, z.length = m.order →
        m.quantisedScore z ≤ m.quantisedScore y ∧
          (m.quantisedScore z = m.quantisedScore y → Labeling.Below z y) := by
  obtain ⟨y, hfound, hgreatest⟩ := minCutLabeling_eq hm
  exact ⟨y, hfound, hgreatest.length_eq, fun z hz => ⟨hgreatest.le z hz, hgreatest.below z hz⟩⟩

/-- Four nodes with a reversed repetition, a loop and a coupling without weight. -/
def repeatedModel : PottsModel Rat where
  potentials := [1, -1 / 2, 0, -3]
  couplings := [⟨0, 1, 2⟩, ⟨1, 0, 1 / 2⟩, ⟨2, 2, 5⟩, ⟨1, 2, 0⟩]
  not_hasNegative := by
    rw [HasNegative, Scalar.minimum?_any_lt_zero_iff]
    norm_num

theorem repeatedModel_greatest :
    repeatedModel.JoinsNodes ∧ ∃ y, repeatedModel.minCutLabeling = .ok y ∧ y.length = 4 ∧
      ∀ z : Labeling, z.length = 4 →
        repeatedModel.quantisedScore z ≤ repeatedModel.quantisedScore y ∧
          (repeatedModel.quantisedScore z = repeatedModel.quantisedScore y →
            Labeling.Below z y) :=
  ⟨by decide, minCutLabeling_greatest repeatedModel (by decide)⟩

end PottsModel

end PottsOracle
