import Mathlib.Data.List.GetD
import PottsOracle.Proofs.Flow.Cut

/-!
# Networks with more at the source and less at the sink

A network is raised if pairs out of the source gain capacity, pairs into the sink lose capacity, and
all others keep theirs (`Network.IsRaised`).  Then the largest minimum cut can only grow
(`Network.IsRaised.sourceSet_subset`).

The argument compares one cut of either network with their union, in the raised network, and their
intersection, in the other one: pair by pair, what leads out of these two sets has no more capacity
than what leads out of the cuts (`Network.IsRaised.crossing_le`).
-/

namespace PottsOracle

variable {n n' : ℕ}

namespace Network

/-! ## Equal numbers of vertices -/

/-- The network on an equal number of vertices. -/
def cast (h : n = n') (net : Network n) : Network n' := h ▸ net

section Cast

variable (h : n = n') (net : Network n)

@[simp]
lemma val_source_cast : ((net.cast h).source : ℕ) = net.source := by
  subst h
  rfl

@[simp]
lemma val_sink_cast : ((net.cast h).sink : ℕ) = net.sink := by
  subst h
  rfl

@[simp]
lemma sourceSide_cast : (net.cast h).sourceSide = net.sourceSide := by
  subst h
  rfl

@[simp]
lemma get_capacity_cast (u v : Fin n') :
    (net.cast h).capacity.get u v = net.capacity.get (u.cast h.symm) (v.cast h.symm) := by
  subst h
  rfl

end Cast

/-! ## Raised networks -/

/-- A network is raised above another one: no pair has lost capacity unless it leads into the sink,
and none has gained any unless it leads out of the source. -/
structure IsRaised (net net' : Network n) : Prop where
  source_eq : net'.source = net.source
  sink_eq : net'.sink = net.sink
  le : ∀ u v, v ≠ net.sink → net.capacity.get u v ≤ net'.capacity.get u v
  ge : ∀ u v, u ≠ net.source → net'.capacity.get u v ≤ net.capacity.get u v

namespace IsRaised

variable {net net' : Network n} {side side' : Finset (Fin n)}

/-- The two networks have the same cuts. -/
lemma isCut_iff (h : IsRaised net net') : net'.IsCut side ↔ net.IsCut side := by
  constructor
  · rintro ⟨hsource, hsink⟩
    exact ⟨h.source_eq ▸ hsource, h.sink_eq ▸ hsink⟩
  · rintro ⟨hsource, hsink⟩
    exact ⟨h.source_eq.symm ▸ hsource, h.sink_eq.symm ▸ hsink⟩

/-- What a pair adds to the union and the intersection of two cuts, it adds to the cuts. -/
lemma crossing_le (h : IsRaised net net') (hside : net.IsCut side) (hside' : net.IsCut side')
    (u v : Fin n) :
    ((if u ∈ side ∪ side' ∧ v ∉ side ∪ side' then (net'.capacity.get u v : ℤ) else 0)
        + if u ∈ side ∩ side' ∧ v ∉ side ∩ side' then (net.capacity.get u v : ℤ) else 0) ≤
      (if u ∈ side' ∧ v ∉ side' then (net'.capacity.get u v : ℤ) else 0)
        + if u ∈ side ∧ v ∉ side then (net.capacity.get u v : ℤ) else 0 := by
  -- a vertex of the one cut is not the sink, and one outside the other cut is not the source
  have hle : v ∈ side → (net.capacity.get u v : ℤ) ≤ net'.capacity.get u v := by
    intro hv
    have hne : v ≠ net.sink := fun hsink => hside.sink_notMem (hsink ▸ hv)
    exact_mod_cast h.le u v hne
  have hge : u ∉ side' → (net'.capacity.get u v : ℤ) ≤ net.capacity.get u v := by
    intro hu
    have hne : u ≠ net.source := fun hsource => hu (hsource ▸ hside'.source_mem)
    exact_mod_cast h.ge u v hne
  simp only [Finset.mem_union, Finset.mem_inter]
  by_cases hu : u ∈ side
  · by_cases hu' : u ∈ side'
    · -- what leads into the second cut alone counts in the network below on the left
      by_cases hv : v ∈ side <;> by_cases hv' : v ∈ side' <;> simp [hu, hu', hv, hv', hle]
    · -- what leads out of the first cut alone counts in the raised network on the left
      by_cases hv : v ∈ side <;> by_cases hv' : v ∈ side' <;> simp [hu, hu', hv, hv', hge]
  · by_cases hu' : u ∈ side'
    · by_cases hv : v ∈ side <;> by_cases hv' : v ∈ side' <;> simp [hu, hu', hv, hv']
    · simp [hu, hu']

/-- The capacities of the union, raised, and the intersection of two cuts. -/
lemma cutCapacity_union_add_inter_le (h : IsRaised net net') (hside : net.IsCut side)
    (hside' : net.IsCut side') :
    cutCapacity net'.capacity (side ∪ side') + cutCapacity net.capacity (side ∩ side') ≤
      cutCapacity net'.capacity side' + cutCapacity net.capacity side := by
  simp only [cutCapacity, ← Finset.sum_add_distrib]
  exact Finset.sum_le_sum fun u _ => Finset.sum_le_sum fun v _ => h.crossing_le hside hside' u v

/-- The largest minimum cut of a network lies within that of a raised one. -/
theorem sourceSet_subset (h : IsRaised net net') : net.sourceSet ⊆ net'.sourceSet := by
  have hmin := net.isLargestMinCut_sourceSet
  have hmin' := net'.isLargestMinCut_sourceSet
  have hcut := h.isCut_iff.1 hmin'.isCut
  have hunion : net'.IsCut (net.sourceSet ∪ net'.sourceSet) := by
    refine ⟨Finset.mem_union_right _ hmin'.isCut.source_mem, ?_⟩
    rw [Finset.mem_union, h.sink_eq]
    rintro (hsink | hsink)
    · exact hmin.isCut.sink_notMem hsink
    · exact hcut.sink_notMem hsink
  have hinter : net.IsCut (net.sourceSet ∩ net'.sourceSet) :=
    ⟨Finset.mem_inter.2 ⟨hmin.isCut.source_mem, hcut.source_mem⟩, fun hsink =>
      hmin.isCut.sink_notMem (Finset.mem_inter.1 hsink).1⟩
  -- the intersection has no less capacity than the cut below, so the union has no more than that
  -- above, which holds all such cuts
  have hsum := h.cutCapacity_union_add_inter_le hmin.isCut hcut
  have hleast := hmin.le _ hinter
  have hsub := hmin'.subset _ hunion (by omega)
  exact Finset.union_subset_left hsub

/-- A vertex on the source's side stays there. -/
lemma getD_sourceSide (h : IsRaised net net') {i : ℕ} (hi : net.sourceSide.getD i false = true) :
    net'.sourceSide.getD i false = true := by
  have hlt : i < n := by
    by_contra hge
    rw [List.getD_eq_default _ _ (by rw [length_sourceSide]; omega)] at hi
    cases hi
  have hmem := net.getD_sourceSide ⟨i, hlt⟩
  have hmem' := net'.getD_sourceSide ⟨i, hlt⟩
  rw [hi, eq_comm, decide_eq_true_iff] at hmem
  rw [hmem', decide_eq_true_iff]
  exact h.sourceSet_subset hmem

end IsRaised

end Network

end PottsOracle
