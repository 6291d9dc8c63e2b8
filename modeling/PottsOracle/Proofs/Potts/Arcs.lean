import Mathlib.Data.List.GetD
import PottsOracle.Proofs.Potts.Quantised

/-!
# The capacities of the network

Over the rationals every size can be rounded, so that the arcs of a model can be listed
(`PottsModel.arcs_eq`).  From the list the capacity of every pair of places is read off that a
cut between labelings can meet:

* from the source to a node, the positive part of its quantised potential;
* from a node to the sink, the negative part;
* between two different nodes, their quantised weight;
* from the source to the sink, nothing.
-/

namespace PottsOracle

namespace PottsModel

section

variable {K : Type} [Scalar K] {m : PottsModel K}

lemma source_eq (m : PottsModel K) : m.source = m.order := rfl

lemma sink_eq (m : PottsModel K) : m.sink = m.order + 1 := rfl

/-- Both ends of an arc are nodes, the source or the sink. -/
def Within (m : PottsModel K) (a : Arc) : Prop :=
  (0 ≤ a.tail ∧ a.tail ≤ m.sink) ∧ 0 ≤ a.head ∧ a.head ≤ m.sink

lemma filter_stray_eq_nil {arcs : List Arc} (h : ∀ a ∈ arcs, m.Within a) :
    (arcs.flatMap fun a => [a.tail, a.head]).filter (fun v => ¬ (0 ≤ v ∧ v ≤ m.sink)) = [] := by
  rw [List.filter_eq_nil_iff]
  intro v hv
  obtain ⟨a, ha, hav⟩ := List.mem_flatMap.1 hv
  obtain ⟨htail, hhead⟩ := h a ha
  rcases List.mem_cons.1 hav with rfl | hav
  · simpa using htail
  · obtain rfl := List.mem_singleton.1 hav
    simpa using hhead

lemma strayPlaces_eq_nil {arcs : List Arc} (h : ∀ a ∈ arcs, m.Within a) :
    m.strayPlaces arcs = [] := by
  rw [strayPlaces, filter_stray_eq_nil h]
  rfl

end

variable {m : PottsModel Rat}

/-! ## The arcs -/

/-- The arc of a node, if it has a potential. -/
def arcOfNode (m : PottsModel Rat) (i : Nat) (u : Rat) : List Arc :=
  if u = 0 then []
  else if 0 < u then [⟨m.source, i, (m.units |u|).toNat⟩]
  else [⟨i, m.sink, (m.units |u|).toNat⟩]

/-- The two arcs of a coupling, if it has a weight and joins two places. -/
def arcsOfCoupling (m : PottsModel Rat) (c : Coupling Rat) : List Arc :=
  if c.weight = 0 ∨ c.first = c.second then []
  else
    [⟨c.first, c.second, (m.units c.weight).toNat⟩, ⟨c.second, c.first, (m.units c.weight).toNat⟩]

/-- The arcs of all nodes. -/
def exactNodeArcs (m : PottsModel Rat) : List Arc :=
  m.potentials.zipIdx.flatMap fun (u, i) => m.arcOfNode i u

/-- The arcs of all couplings. -/
def exactCouplingArcs (m : PottsModel Rat) : List Arc := m.couplings.flatMap m.arcsOfCoupling

/-- All arcs. -/
def exactArcs (m : PottsModel Rat) : List Arc := m.exactNodeArcs ++ m.exactCouplingArcs

lemma quantised_eq (x : Rat) : quantised m.scale x = .ok (m.units x).toNat := by
  have hmax : Nat.max 1 (halfEven (x * m.scale).num (x * m.scale).den).toNat =
      (m.units x).toNat := by
    show max 1 _ = (max 1 _ : ℤ).toNat
    omega
  rw [← hmax]
  rfl

lemma nodeArcs_eq (i : Nat) (u : Rat) : m.nodeArcs i u = .ok (m.arcOfNode i u) := by
  rw [nodeArcs, arcOfNode, Scalar.abs_rat, quantised_eq]
  by_cases hzero : u = 0
  · simp [hzero]
  · by_cases hpos : 0 < u
    · simp [hzero, hpos, Except.map]
    · simp [hzero, hpos, Except.map]

lemma couplingArcs_eq (c : Coupling Rat) : m.couplingArcs c = .ok (m.arcsOfCoupling c) := by
  rw [couplingArcs, arcsOfCoupling, quantised_eq]
  by_cases hnone : c.weight = 0 ∨ c.first = c.second
  · simp [hnone]
  · simp [hnone, Except.map]

lemma arcs_eq (m : PottsModel Rat) : m.arcs = .ok m.exactArcs := by
  have hnodes : m.potentials.zipIdx.mapM (fun (u, i) => m.nodeArcs i u) =
      .ok (m.potentials.zipIdx.map fun (u, i) => m.arcOfNode i u) :=
    mapM_eq_pure_map fun p _ => nodeArcs_eq p.2 p.1
  have hcouplings : m.couplings.mapM m.couplingArcs = .ok (m.couplings.map m.arcsOfCoupling) :=
    mapM_eq_pure_map fun c _ => couplingArcs_eq c
  rw [arcs, allNodeArcs, hnodes, hcouplings, exactArcs, exactNodeArcs, exactCouplingArcs,
    List.flatMap_def, List.flatMap_def]
  rfl

lemma mem_exactNodeArcs {a : Arc} :
    a ∈ m.exactNodeArcs ↔ ∃ i u, m.potentials[i]? = some u ∧ a ∈ m.arcOfNode i u := by
  rw [exactNodeArcs, List.mem_flatMap]
  constructor
  · rintro ⟨⟨u, i⟩, hmem, ha⟩
    exact ⟨i, u, List.mem_zipIdx_iff_getElem?.1 hmem, ha⟩
  · rintro ⟨i, u, hget, ha⟩
    exact ⟨(u, i), List.mem_zipIdx_iff_getElem?.2 hget, ha⟩

/-- An arc of a node joins it to the source or to the sink. -/
lemma ends_of_mem_arcOfNode {i : Nat} {u : Rat} {a : Arc} (h : a ∈ m.arcOfNode i u) :
    (0 < u ∧ a.tail = m.source ∧ a.head = i ∨ u < 0 ∧ a.tail = i ∧ a.head = m.sink) ∧
      a.capacity = (m.units |u|).toNat := by
  rw [arcOfNode] at h
  split at h
  · cases h
  · rename_i hzero
    split at h
    · rename_i hpos
      obtain rfl := List.mem_singleton.1 h
      exact ⟨Or.inl ⟨hpos, rfl, rfl⟩, rfl⟩
    · rename_i hneg
      obtain rfl := List.mem_singleton.1 h
      exact ⟨Or.inr ⟨lt_of_le_of_ne (not_lt.1 hneg) hzero, rfl, rfl⟩, rfl⟩

/-- The arcs of a coupling join its two places. -/
lemma ends_of_mem_arcsOfCoupling {c : Coupling Rat} {a : Arc} (h : a ∈ m.arcsOfCoupling c) :
    a.tail = c.first ∧ a.head = c.second ∨ a.tail = c.second ∧ a.head = c.first := by
  rw [arcsOfCoupling] at h
  split at h
  · cases h
  · rcases List.mem_cons.1 h with rfl | h
    · exact Or.inl ⟨rfl, rfl⟩
    · obtain rfl := List.mem_singleton.1 h
      exact Or.inr ⟨rfl, rfl⟩

lemma lt_order_of_getElem? {i : Nat} {u : Rat} (h : m.potentials[i]? = some u) : i < m.order :=
  (List.getElem?_eq_some_iff.1 h).1

/-- An arc of a node leads from the source to a node or from a node to the sink. -/
lemma ends_of_mem_exactNodeArcs {a : Arc} (h : a ∈ m.exactNodeArcs) :
    ∃ i < m.order, (a.tail = m.source ∧ a.head = i) ∨ (a.tail = i ∧ a.head = m.sink) := by
  obtain ⟨i, u, hget, hmem⟩ := mem_exactNodeArcs.1 h
  refine ⟨i, lt_order_of_getElem? hget, ?_⟩
  obtain ⟨⟨-, hends⟩ | ⟨-, hends⟩, -⟩ := ends_of_mem_arcOfNode hmem
  · exact Or.inl hends
  · exact Or.inr hends

/-! ## Stray places -/

/-- All stray places are places of couplings. -/
lemma strayPlaces_exactArcs_eq (m : PottsModel Rat) :
    m.strayPlaces m.exactArcs = m.strayPlaces m.exactCouplingArcs := by
  have hnodes : ∀ a ∈ m.exactNodeArcs, m.Within a := by
    intro a ha
    obtain ⟨i, hi, ⟨htail, hhead⟩ | ⟨htail, hhead⟩⟩ := ends_of_mem_exactNodeArcs ha
    · rw [Within, htail, hhead, source_eq, sink_eq]
      omega
    · rw [Within, htail, hhead, sink_eq]
      omega
  rw [strayPlaces, strayPlaces, exactArcs, List.flatMap_append, List.filter_append,
    filter_stray_eq_nil hnodes, List.nil_append]

/-- If all couplings join nodes, there are no other places than nodes, source and sink. -/
lemma strayPlaces_exactArcs (h : m.JoinsNodes) : m.strayPlaces m.exactArcs = [] := by
  have hcouplings : ∀ a ∈ m.exactCouplingArcs, m.Within a := by
    intro a ha
    obtain ⟨c, hc, hmem⟩ := List.mem_flatMap.1 ha
    obtain ⟨hfirst, hsecond⟩ := h c hc
    rcases ends_of_mem_arcsOfCoupling hmem with ⟨htail, hhead⟩ | ⟨htail, hhead⟩
    · rw [Within, htail, hhead, sink_eq]
      omega
    · rw [Within, htail, hhead, sink_eq]
      omega
  rw [strayPlaces_exactArcs_eq, strayPlaces_eq_nil hcouplings]

/-! ## The capacity of a pair -/

/-- The last of some arcs that leads from one place to another. -/
def lastArc? (arcs : List Arc) (tail head : ℤ) : Option Arc :=
  arcs.reverse.find? fun a => a.tail = tail ∧ a.head = head

/-- The capacity of a pair of places: that of the last arc. -/
def pairCapacity (arcs : List Arc) (tail head : ℤ) : Nat := capacityTo (leaving arcs tail) head

lemma pairCapacity_eq (arcs : List Arc) (tail head : ℤ) :
    pairCapacity arcs tail head = ((lastArc? arcs tail head).map (·.capacity)).getD 0 := by
  rw [pairCapacity, capacityTo, leaving, ← List.filter_reverse, List.find?_filter, lastArc?]
  simp only [Bool.decide_and, decide_eq_true_eq]

/-- A pair that no arc joins has no capacity. -/
lemma pairCapacity_eq_zero {arcs : List Arc} {tail head : ℤ}
    (h : ∀ a ∈ arcs, ¬ (a.tail = tail ∧ a.head = head)) : pairCapacity arcs tail head = 0 := by
  have hnone : lastArc? arcs tail head = none := by
    rw [lastArc?, List.find?_eq_none]
    intro a ha
    simpa using h a (List.mem_reverse.1 ha)
  rw [pairCapacity_eq, hnone]
  rfl

/-- If a single arc can join a pair, the pair has the capacity of that arc. -/
lemma pairCapacity_eq_ite {arcs : List Arc} {tail head : ℤ} {capacity : Nat} {p : Prop}
    [Decidable p]
    (h : ∀ a, a ∈ arcs ∧ a.tail = tail ∧ a.head = head ↔ p ∧ a = ⟨tail, head, capacity⟩) :
    pairCapacity arcs tail head = if p then capacity else 0 := by
  split
  · rename_i hp
    rw [pairCapacity_eq]
    cases hlast : lastArc? arcs tail head with
    | none =>
      obtain ⟨hmem, hends⟩ := (h _).2 ⟨hp, rfl⟩
      rw [lastArc?, List.find?_eq_none] at hlast
      exact absurd hends (by simpa using hlast _ (List.mem_reverse.2 hmem))
    | some a =>
      have hmem : a ∈ arcs := List.mem_reverse.1 (List.mem_of_find?_eq_some hlast)
      have hends : a.tail = tail ∧ a.head = head := by simpa using List.find?_some hlast
      rw [((h a).1 ⟨hmem, hends⟩).2]
      rfl
  · rename_i hp
    exact pairCapacity_eq_zero fun a ha hends => hp ((h a).1 ⟨ha, hends⟩).1

/-- The last arc of all counts: one of the second arcs, if it joins the pair. -/
lemma pairCapacity_append (arcs arcs' : List Arc) (tail head : ℤ) :
    pairCapacity (arcs ++ arcs') tail head =
      ((lastArc? arcs' tail head).map (·.capacity)).getD (pairCapacity arcs tail head) := by
  rw [pairCapacity_eq, pairCapacity_eq, lastArc?, lastArc?, List.reverse_append, List.find?_append]
  cases arcs'.reverse.find? fun a => a.tail = tail ∧ a.head = head with
  | none => rfl
  | some a => rfl

/-! ## The arcs of nodes -/

variable {i j : Nat}

/-- From the source to a node there is the arc of the node, if its potential is positive. -/
lemma mem_nodeArcs_source_iff {u : Rat} (hu : m.potentials[i]? = some u) (a : Arc) :
    a ∈ m.exactNodeArcs ∧ a.tail = m.source ∧ a.head = i ↔
      0 < u ∧ a = ⟨m.source, i, (m.units |u|).toNat⟩ := by
  constructor
  · rintro ⟨ha, htail, hhead⟩
    obtain ⟨k, v, hget, hmem⟩ := mem_exactNodeArcs.1 ha
    have hk := lt_order_of_getElem? hget
    obtain ⟨⟨hpos, -, hk'⟩ | ⟨-, hk', -⟩, hcapacity⟩ := ends_of_mem_arcOfNode hmem
    · have hki : k = i := by exact_mod_cast hk'.symm.trans hhead
      rw [hki, hu] at hget
      obtain rfl := Option.some.inj hget
      refine ⟨hpos, ?_⟩
      rw [← htail, ← hhead, ← hcapacity]
    · rw [source_eq] at htail
      omega
  · rintro ⟨hpos, rfl⟩
    refine ⟨mem_exactNodeArcs.2 ⟨i, u, hu, ?_⟩, rfl, rfl⟩
    simp [arcOfNode, hpos, hpos.ne']

/-- From a node to the sink there is the arc of the node, if its potential is negative. -/
lemma mem_nodeArcs_sink_iff {u : Rat} (hu : m.potentials[i]? = some u) (a : Arc) :
    a ∈ m.exactNodeArcs ∧ a.tail = i ∧ a.head = m.sink ↔
      u < 0 ∧ a = ⟨i, m.sink, (m.units |u|).toNat⟩ := by
  constructor
  · rintro ⟨ha, htail, hhead⟩
    obtain ⟨k, v, hget, hmem⟩ := mem_exactNodeArcs.1 ha
    have hk := lt_order_of_getElem? hget
    obtain ⟨⟨-, -, hk'⟩ | ⟨hneg, hk', -⟩, hcapacity⟩ := ends_of_mem_arcOfNode hmem
    · rw [sink_eq] at hhead
      omega
    · -- the arc leaves the node it belongs to
      have hki : k = i := by exact_mod_cast hk'.symm.trans htail
      rw [hki, hu] at hget
      obtain rfl := Option.some.inj hget
      refine ⟨hneg, ?_⟩
      rw [← htail, ← hhead, ← hcapacity]
  · rintro ⟨hneg, rfl⟩
    refine ⟨mem_exactNodeArcs.2 ⟨i, u, hu, ?_⟩, rfl, rfl⟩
    simp [arcOfNode, hneg.ne, not_lt.2 hneg.le]

/-- What is no node has no potential. -/
lemma quantisedPotential_of_le (h : m.order ≤ i) : m.quantisedPotential i = 0 := by
  rw [quantisedPotential, List.getD_eq_default _ _ h]
  rfl

/-- The arcs of nodes give a pair out of the source the positive part of the potential. -/
lemma pairCapacity_nodeArcs_source (i : Nat) :
    (pairCapacity m.exactNodeArcs m.source i : ℤ) = max (m.quantisedPotential i) 0 := by
  rcases lt_or_ge i m.order with hi | hi
  · obtain ⟨u, hu⟩ : ∃ u, m.potentials[i]? = some u := ⟨_, List.getElem?_eq_getElem hi⟩
    have hunits := one_le_units (m := m) |u|
    rw [pairCapacity_eq_ite (mem_nodeArcs_source_iff hu), quantisedPotential_eq hu]
    rcases lt_trichotomy u 0 with hneg | hzero | hpos
    · simp only [not_lt.2 hneg.le, hneg.ne, if_false, sign_neg hneg, SignType.coe_neg,
        SignType.coe_one, Nat.cast_zero]
      omega
    · simp [hzero]
    · simp only [hpos, hpos.ne', if_true, if_false, sign_pos hpos, SignType.coe_one, one_mul,
        natCast_toNat_units]
      omega
  · rw [quantisedPotential_of_le hi, pairCapacity_eq_zero]
    · rfl
    · rintro a ha ⟨htail, hhead⟩
      rw [source_eq] at htail
      obtain ⟨k, hk, h | h⟩ := ends_of_mem_exactNodeArcs ha <;> omega

/-- The arcs of nodes give a pair into the sink the negative part of the potential. -/
lemma pairCapacity_nodeArcs_sink (i : Nat) :
    (pairCapacity m.exactNodeArcs i m.sink : ℤ) = max (-m.quantisedPotential i) 0 := by
  rcases lt_or_ge i m.order with hi | hi
  · obtain ⟨u, hu⟩ : ∃ u, m.potentials[i]? = some u := ⟨_, List.getElem?_eq_getElem hi⟩
    have hunits := one_le_units (m := m) |u|
    rw [pairCapacity_eq_ite (mem_nodeArcs_sink_iff hu), quantisedPotential_eq hu]
    rcases lt_trichotomy u 0 with hneg | hzero | hpos
    · simp only [hneg, hneg.ne, if_true, if_false, sign_neg hneg, SignType.coe_neg,
        SignType.coe_one, natCast_toNat_units]
      omega
    · simp [hzero]
    · simp only [not_lt.2 hpos.le, hpos.ne', if_false, sign_pos hpos, SignType.coe_one,
        Nat.cast_zero]
      omega
  · rw [quantisedPotential_of_le hi, pairCapacity_eq_zero]
    · rfl
    · rintro a ha ⟨htail, hhead⟩
      rw [sink_eq] at hhead
      obtain ⟨k, hk, h | h⟩ := ends_of_mem_exactNodeArcs ha <;> omega

/-- The arcs of nodes have no places below zero. -/
lemma pairCapacity_nodeArcs_of_neg {tail head : ℤ} (h : tail < 0 ∨ head < 0) :
    pairCapacity m.exactNodeArcs tail head = 0 := by
  refine pairCapacity_eq_zero ?_
  rintro a ha ⟨rfl, rfl⟩
  obtain ⟨k, -, hends⟩ := ends_of_mem_exactNodeArcs ha
  rw [source_eq, sink_eq] at hends
  omega

/-- The arcs of nodes leave all other pairs without capacity. -/
lemma pairCapacity_nodeArcs_of_ne {tail head : ℤ} (htail : tail ≠ m.source)
    (hhead : head ≠ m.sink) : pairCapacity m.exactNodeArcs tail head = 0 := by
  refine pairCapacity_eq_zero ?_
  rintro a ha ⟨rfl, rfl⟩
  obtain ⟨k, -, ⟨h, -⟩ | ⟨-, h⟩⟩ := ends_of_mem_exactNodeArcs ha
  · exact htail h
  · exact hhead h

/-! ## The four kinds of pairs -/

section Joins

variable (hm : m.JoinsNodes)

include hm

/-- Couplings between nodes have no arcs at the source or at the sink. -/
lemma lastArc?_couplingArcs_eq_none {tail head : ℤ} (h : m.source ≤ tail ∨ m.source ≤ head) :
    lastArc? m.exactCouplingArcs tail head = none := by
  rw [source_eq] at h
  rw [lastArc?, List.find?_eq_none]
  intro a ha
  obtain ⟨c, hc, hmem⟩ := List.mem_flatMap.1 (List.mem_reverse.1 ha)
  obtain ⟨hfirst, hsecond⟩ := hm c hc
  rw [decide_eq_true_iff]
  rcases ends_of_mem_arcsOfCoupling hmem with hends | hends <;> omega

/-- From the source to a node: the positive part of its potential. -/
lemma pairCapacity_source (i : Nat) :
    (pairCapacity m.exactArcs m.source i : ℤ) = max (m.quantisedPotential i) 0 := by
  rw [exactArcs, pairCapacity_append, lastArc?_couplingArcs_eq_none hm (Or.inl le_rfl)]
  exact pairCapacity_nodeArcs_source i

/-- From a node to the sink: the negative part of its potential. -/
lemma pairCapacity_sink (i : Nat) :
    (pairCapacity m.exactArcs i m.sink : ℤ) = max (-m.quantisedPotential i) 0 := by
  have hsink : m.source ≤ m.sink := by
    rw [source_eq, sink_eq]
    omega
  rw [exactArcs, pairCapacity_append, lastArc?_couplingArcs_eq_none hm (Or.inr hsink)]
  exact pairCapacity_nodeArcs_sink i

/-- From the source to the sink: nothing. -/
lemma pairCapacity_source_sink : pairCapacity m.exactArcs m.source m.sink = 0 := by
  have hcapacity := pairCapacity_sink hm m.order
  rw [← source_eq, quantisedPotential_of_le le_rfl, neg_zero, max_self] at hcapacity
  exact_mod_cast hcapacity

end Joins

/-- The last arc of a coupling that leads from one node to another one. -/
lemma find?_arcsOfCoupling (hij : i ≠ j) (c : Coupling Rat) :
    ((m.arcsOfCoupling c).reverse.find? fun a => a.tail = (i : ℤ) ∧ a.head = (j : ℤ)).map
        (·.capacity) =
      if c.weight ≠ 0 ∧ c.Joins i j then some (m.units c.weight).toNat else none := by
  simp only [arcsOfCoupling, Coupling.Joins]
  by_cases hweight : c.weight = 0
  · simp [hweight]
  · by_cases hloop : c.first = c.second
    · have hnot : ¬ (c.second = (i : ℤ) ∧ c.second = (j : ℤ)) := by omega
      have hnot' : ¬ (c.second = (j : ℤ) ∧ c.second = (i : ℤ)) := by omega
      simp [hloop, hnot, hnot']
    · by_cases hback : c.second = (i : ℤ) ∧ c.first = (j : ℤ)
      · simp [hweight, hback, hij.symm]
      · by_cases hforth : c.first = (i : ℤ) ∧ c.second = (j : ℤ)
        · have hji : ¬ ((j : ℤ) = i) := by omega
          simp [hweight, hforth, hij, hji]
        · have hback' : ¬ (c.first = (j : ℤ) ∧ c.second = (i : ℤ)) := fun h => hback h.symm
          simp [hweight, hloop, hback, hforth, hback']

/-- Between two nodes: their weight.  No arc of a node joins two nodes, and of the couplings the
last one counts. -/
lemma pairCapacity_nodes (hi : i < m.order) (hj : j < m.order) (hij : i ≠ j) :
    (pairCapacity m.exactArcs i j : ℤ) = m.quantisedWeight i j := by
  have hnodes : pairCapacity m.exactNodeArcs i j = 0 := by
    refine pairCapacity_nodeArcs_of_ne ?_ ?_
    · rw [source_eq]
      omega
    · rw [sink_eq]
      omega
  -- the last arc of all is the last one of the last coupling that has such an arc
  have hlast : (lastArc? m.exactCouplingArcs i j).map (·.capacity) =
      (m.lastWeight? i j).map fun w => (m.units w).toNat := by
    rw [lastArc?, exactCouplingArcs, List.reverse_flatMap, List.find?_flatMap, List.map_findSome?,
      lastWeight?, Option.map_map, List.find?_eq_findSome?_guard, List.map_findSome?]
    congr 1
    funext c
    simp only [Function.comp_def]
    rw [find?_arcsOfCoupling hij]
    by_cases hjoins : c.weight ≠ 0 ∧ c.Joins i j
    · simp [Option.guard, hjoins]
    · simp only [Option.guard, hjoins, if_false, decide_false, Bool.false_eq_true, Option.map_none]
  rw [exactArcs, pairCapacity_append, hnodes, hlast, quantisedWeight]
  cases m.lastWeight? i j with
  | none => rfl
  | some w => exact natCast_toNat_units w

end PottsModel

end PottsOracle
