import Mathlib.Algebra.BigOperators.Fin
import Mathlib.Algebra.Order.BigOperators.Group.Finset
import PottsOracle.Proofs.Flow.Route

/-!
# The largest minimum cut

A push along a route from the source to the sink takes the same amount from every cut: whatever a
set of vertices is, the route leaves it once more often than it enters it (`cutCapacity_push`).  So
the capacities that are left, minus a constant, are those of the network (`Network.IsResidual`), and
cuts compare in both in the same way.

When no route is left, the vertices that cannot reach the sink are a cut of capacity zero, and no
cut of capacity zero holds any other vertex (`Network.IsResidual.isLargestMinCut`).  That is a
statement about any capacities that differ from those of the network as pushes make them differ, so
that it does not matter which routes were found.
-/

namespace PottsOracle

variable {n : Nat}

/-- The capacity of a set of vertices: the sum over the pairs that lead out of it. -/
def cutCapacity (capacity : Grid n) (side : Finset (Fin n)) : ℤ :=
  ∑ u, ∑ v, if u ∈ side ∧ v ∉ side then (capacity.get u v : ℤ) else 0

lemma crossing_nonneg (capacity : Grid n) (side : Finset (Fin n)) (u v : Fin n) :
    0 ≤ if u ∈ side ∧ v ∉ side then (capacity.get u v : ℤ) else 0 := by
  split
  · exact Int.natCast_nonneg _
  · exact le_rfl

lemma cutCapacity_nonneg (capacity : Grid n) (side : Finset (Fin n)) :
    0 ≤ cutCapacity capacity side :=
  Finset.sum_nonneg fun u _ => Finset.sum_nonneg fun v _ => crossing_nonneg capacity side u v

/-- A set has no capacity if and only if no pair with capacity leads out of it. -/
lemma cutCapacity_eq_zero_iff {capacity : Grid n} {side : Finset (Fin n)} :
    cutCapacity capacity side = 0 ↔ ∀ u ∈ side, ∀ v ∉ side, capacity.get u v = 0 := by
  have hterm := crossing_nonneg capacity side
  rw [cutCapacity, Finset.sum_eq_zero_iff_of_nonneg fun u _ => Finset.sum_nonneg fun v _ => hterm u v]
  constructor
  · intro h u hu v hv
    have hrow := h u (Finset.mem_univ u)
    rw [Finset.sum_eq_zero_iff_of_nonneg fun v _ => hterm u v] at hrow
    simpa [hu, hv] using hrow v (Finset.mem_univ v)
  · intro h u _
    refine Finset.sum_eq_zero fun v _ => ?_
    split
    · rename_i hout
      simp [h u hout.1 v hout.2]
    · rfl

namespace Network

/-! ## Pushes -/

lemma get_pushArc {amount : Nat} {capacity : Grid n} {u v : Fin n} (hne : u ≠ v) (x y : Fin n) :
    (pushArc amount capacity (u, v)).get x y =
      if u = x ∧ v = y then capacity.get u v - amount
      else if v = x ∧ u = y then capacity.get v u + amount
      else capacity.get x y := by
  have hback : ¬ (u = v ∧ v = u) := fun h => hne h.1
  simp only [pushArc, Grid.get_set, hback, if_false]
  by_cases hforward : u = x ∧ v = y
  · obtain ⟨rfl, rfl⟩ := hforward
    simp [hne.symm]
  · simp [hforward]

/-- What a push along one pair takes from a pair of vertices. -/
lemma get_pushArc_int {amount : Nat} {capacity : Grid n} {u v : Fin n} (hne : u ≠ v)
    (hle : amount ≤ capacity.get u v) (x y : Fin n) :
    ((pushArc amount capacity (u, v)).get x y : ℤ) =
      capacity.get x y - (if u = x ∧ v = y then (amount : ℤ) else 0)
        + (if v = x ∧ u = y then (amount : ℤ) else 0) := by
  rw [get_pushArc hne]
  by_cases hforward : u = x ∧ v = y
  · obtain ⟨rfl, rfl⟩ := hforward
    have hback : ¬ (v = u ∧ u = v) := fun h => hne h.2
    simp [hback, Nat.cast_sub hle]
  · by_cases hbackward : v = x ∧ u = y
    · obtain ⟨rfl, rfl⟩ := hbackward
      simp [hforward]
    · simp [hforward, hbackward]

/-- One for the vertices of a set, zero for the others. -/
def inside (side : Finset (Fin n)) (u : Fin n) : ℤ := if u ∈ side then 1 else 0

/-- The sum of one amount, which stands at a single pair, over the pairs that lead out of a set. -/
lemma sum_single_pair (side : Finset (Fin n)) (u v : Fin n) (amount : ℤ) :
    (∑ x, ∑ y, if x ∈ side ∧ y ∉ side then (if u = x ∧ v = y then amount else 0) else 0) =
      if u ∈ side ∧ v ∉ side then amount else 0 := by
  rw [Finset.sum_eq_single u, Finset.sum_eq_single v]
  · simp
  · intro y _ hy
    simp [Ne.symm hy]
  · simp
  · intro x _ hx
    refine Finset.sum_eq_zero fun y _ => ?_
    simp [Ne.symm hx]
  · simp

lemma cutCapacity_pushArc {amount : Nat} {capacity : Grid n} {u v : Fin n} (hne : u ≠ v)
    (hle : amount ≤ capacity.get u v) (side : Finset (Fin n)) :
    cutCapacity (pushArc amount capacity (u, v)) side =
      cutCapacity capacity side - amount * (inside side u - inside side v) := by
  have hsplit : cutCapacity (pushArc amount capacity (u, v)) side =
      cutCapacity capacity side - (if u ∈ side ∧ v ∉ side then (amount : ℤ) else 0)
        + (if v ∈ side ∧ u ∉ side then (amount : ℤ) else 0) := by
    rw [← sum_single_pair side u v, ← sum_single_pair side v u]
    rw [cutCapacity, cutCapacity]
    simp only [← Finset.sum_sub_distrib, ← Finset.sum_add_distrib]
    refine Finset.sum_congr rfl fun x _ => Finset.sum_congr rfl fun y _ => ?_
    split
    · exact get_pushArc_int hne hle x y
    · simp
  rw [hsplit]
  by_cases hu : u ∈ side <;> by_cases hv : v ∈ side <;> simp [inside, hu, hv]

/-- A push along a pair leaves the pairs between other vertices alone. -/
lemma get_pushArc_of_mem {amount : Nat} {capacity : Grid n} {u v : Fin n} {vertices : List (Fin n)}
    (hu : u ∉ v :: vertices) {x y : Fin n} (hx : x ∈ v :: vertices) (hy : y ∈ v :: vertices) :
    (pushArc amount capacity (u, v)).get x y = capacity.get x y := by
  have hne : u ≠ v := fun h => hu (h ▸ List.mem_cons_self)
  have hux : u ≠ x := fun h => hu (h ▸ hx)
  have huy : u ≠ y := fun h => hu (h ▸ hy)
  rw [get_pushArc hne]
  simp [hux, huy]

/-- A push along pairs that meet no vertex twice changes the capacity of a set by what the set
gains or loses between the two ends. -/
lemma cutCapacity_push {amount : Nat} (side : Finset (Fin n)) {u : Fin n} {route : List (Fin n)}
    {capacity : Grid n} (hnodup : (u :: route).Nodup)
    (hle : ∀ arc ∈ arcsFrom u route, amount ≤ capacity.get arc.1 arc.2) :
    cutCapacity (push amount capacity (arcsFrom u route)) side =
      cutCapacity capacity side - amount *
        (inside side u - inside side ((u :: route).getLast (List.cons_ne_nil u route))) := by
  induction route generalizing u capacity with
  | nil => simp [push]
  | cons v route ih =>
    have hu : u ∉ v :: route := (List.nodup_cons.1 hnodup).1
    have hne : u ≠ v := fun h => hu (h ▸ List.mem_cons_self)
    have hfirst : amount ≤ capacity.get u v := hle (u, v) (by simp)
    -- the rest of the route does not meet the first vertex, so its room is still there
    have hrest : ∀ arc ∈ arcsFrom v route,
        amount ≤ (pushArc amount capacity (u, v)).get arc.1 arc.2 := by
      intro arc harc
      obtain ⟨hx, hy⟩ := mem_of_mem_arcsFrom harc
      rw [get_pushArc_of_mem hu hx hy]
      exact hle arc (by simp [harc])
    have hpush : push amount capacity (arcsFrom u (v :: route)) =
        push amount (pushArc amount capacity (u, v)) (arcsFrom v route) := rfl
    rw [hpush, ih hnodup.of_cons hrest, cutCapacity_pushArc hne hfirst,
      List.getLast_cons (List.cons_ne_nil v route)]
    ring

/-! ## Augmentations -/

lemma bottleneck_eq (capacity : Grid n) (arcs : List (Fin n × Fin n)) :
    bottleneck capacity arcs =
      ((arcs.map fun arc => capacity.get arc.1 arc.2).min?).getD 0 :=
  rfl

lemma bottleneck_le {capacity : Grid n} {arcs : List (Fin n × Fin n)} {arc : Fin n × Fin n}
    (h : arc ∈ arcs) : bottleneck capacity arcs ≤ capacity.get arc.1 arc.2 := by
  have hmem : capacity.get arc.1 arc.2 ∈ arcs.map fun arc => capacity.get arc.1 arc.2 :=
    List.mem_map.2 ⟨arc, h, rfl⟩
  rw [bottleneck_eq]
  cases hmin : (arcs.map fun arc => capacity.get arc.1 arc.2).min? with
  | none =>
    rw [List.min?_eq_none_iff] at hmin
    rw [hmin] at hmem
    cases hmem
  | some least => exact (List.min?_eq_some_iff.1 hmin).2 _ hmem

lemma bottleneck_pos {capacity : Grid n} {arcs : List (Fin n × Fin n)} (hne : arcs ≠ [])
    (hpos : ∀ arc ∈ arcs, 0 < capacity.get arc.1 arc.2) : 0 < bottleneck capacity arcs := by
  rw [bottleneck_eq]
  cases hmin : (arcs.map fun arc => capacity.get arc.1 arc.2).min? with
  | none =>
    rw [List.min?_eq_none_iff, List.map_eq_nil_iff] at hmin
    exact absurd hmin hne
  | some least =>
    obtain ⟨arc, harc, hleast⟩ := List.mem_map.1 (List.min?_eq_some_iff.1 hmin).1
    rw [Option.getD_some, ← hleast]
    exact hpos arc harc

/-- A set of vertices that separates the source from the sink. -/
structure IsCut (net : Network n) (side : Finset (Fin n)) : Prop where
  source_mem : net.source ∈ side
  sink_notMem : net.sink ∉ side

/-- Capacities that are left after some pushes from the source to the sink: every cut has lost the
same amount. -/
def IsResidual (net : Network n) (capacity : Grid n) : Prop :=
  ∃ pushed : ℤ, ∀ side, net.IsCut side →
    cutCapacity capacity side = cutCapacity net.capacity side - pushed

lemma isResidual_capacity (net : Network n) : net.IsResidual net.capacity :=
  ⟨0, fun side _ => by rw [sub_zero]⟩

lemma isCut_source (net : Network n) : net.IsCut {net.source} :=
  ⟨Finset.mem_singleton_self _, by
    rw [Finset.mem_singleton]
    exact net.source_ne_sink.symm⟩

variable {net : Network n} {capacity : Grid n}

/-- An augmentation takes a positive amount from every cut, the same from all of them. -/
lemma exists_cutCapacity_augment {route : List (Fin n)}
    (h : IsRoute capacity net.sink net.source route) :
    ∃ amount : ℤ, 0 < amount ∧ ∀ side, net.IsCut side →
      cutCapacity (augment net.source capacity route) side =
        cutCapacity capacity side - amount := by
  have hne : arcsFrom net.source route ≠ [] := by
    cases route with
    | nil => exact absurd h.getLast net.source_ne_sink
    | cons v route => simp
  refine ⟨bottleneck capacity (arcsFrom net.source route), ?_, ?_⟩
  · exact_mod_cast bottleneck_pos hne h.step
  · intro side hside
    have hroom : ∀ arc ∈ arcsFrom net.source route,
        bottleneck capacity (arcsFrom net.source route) ≤ capacity.get arc.1 arc.2 :=
      fun _ harc => bottleneck_le harc
    have hpush := cutCapacity_push side h.nodup hroom
    rw [h.getLast] at hpush
    simpa [augment, inside, hside.source_mem, hside.sink_notMem] using hpush

lemma IsResidual.saturate (h : net.IsResidual capacity) (pushes : Nat) :
    net.IsResidual (saturate net.source net.sink pushes capacity) := by
  induction pushes generalizing capacity with
  | zero => exact h
  | succ pushes ih =>
    rw [Network.saturate]
    split
    · exact h
    · rename_i route hroute
      obtain ⟨amount, -, hamount⟩ :=
        exists_cutCapacity_augment ((Routes.sound_search capacity net.sink).isRoute hroute)
      -- what all cuts lose adds up
      obtain ⟨pushed, hpushed⟩ := h
      refine ih ⟨pushed + amount, ?_⟩
      intro side hside
      rw [hamount side hside, hpushed side hside]
      ring

/-- There are enough pushes: every one of them takes at least one unit from what leads out of the
source. -/
lemma get?_search_saturate (pushes : Nat)
    (h : cutCapacity capacity {net.source} ≤ pushes) :
    (Routes.search (saturate net.source net.sink pushes capacity) net.sink).get? net.source =
      none := by
  induction pushes generalizing capacity with
  | zero =>
    rw [Network.saturate]
    cases hroute : (Routes.search capacity net.sink).get? net.source with
    | none => rfl
    | some route =>
      -- a route would have to leave the source by a pair with capacity
      have hzero : cutCapacity capacity {net.source} = 0 :=
        le_antisymm h (cutCapacity_nonneg capacity _)
      obtain ⟨x, hx, y, hy, hpos⟩ :=
        ((Routes.sound_search capacity net.sink).isRoute hroute).exists_leaving
          net.isCut_source.source_mem net.isCut_source.sink_notMem
      have := cutCapacity_eq_zero_iff.1 hzero x hx y hy
      omega
  | succ pushes ih =>
    rw [Network.saturate]
    split
    · assumption
    · rename_i route hroute
      obtain ⟨amount, hpos, hamount⟩ :=
        exists_cutCapacity_augment ((Routes.sound_search capacity net.sink).isRoute hroute)
      refine ih ?_
      rw [hamount _ net.isCut_source]
      push_cast at h
      omega

lemma leaving_eq_sum (capacity : Grid n) (u : Fin n) :
    leaving capacity u = ∑ v, capacity.get u v := by
  rw [leaving, ← List.sum_eq_foldl, Fin.sum_univ_def]

lemma cutCapacity_source_le_leaving (net : Network n) :
    cutCapacity net.capacity {net.source} ≤ leaving net.capacity net.source := by
  rw [leaving_eq_sum, cutCapacity, Finset.sum_eq_single net.source]
  · push_cast
    refine Finset.sum_le_sum fun v _ => ?_
    split
    · exact le_rfl
    · exact Int.natCast_nonneg _
  · intro u _ hu
    refine Finset.sum_eq_zero fun v _ => ?_
    simp [hu]
  · simp

lemma isResidual_residual (net : Network n) : net.IsResidual net.residual :=
  net.isResidual_capacity.saturate _

lemma not_reaches_source (net : Network n) :
    ¬ (Routes.search net.residual net.sink).reaches net.source := by
  have hnone : (Routes.search net.residual net.sink).get? net.source = none :=
    get?_search_saturate _ net.cutCapacity_source_le_leaving
  rw [Routes.reaches_iff]
  rintro ⟨route, hroute⟩
  rw [hnone] at hroute
  cases hroute

/-! ## The cut that is found -/

/-- A cut of least capacity that holds every other one. -/
structure IsLargestMinCut (net : Network n) (side : Finset (Fin n)) : Prop where
  isCut : net.IsCut side
  le : ∀ other, net.IsCut other → cutCapacity net.capacity side ≤ cutCapacity net.capacity other
  subset : ∀ other, net.IsCut other →
    cutCapacity net.capacity other ≤ cutCapacity net.capacity side → other ⊆ side

/-- The vertices that have no route to the sink in some capacities. -/
def cutOff (net : Network n) (capacity : Grid n) : Finset (Fin n) :=
  Finset.univ.filter fun u => ¬ (Routes.search capacity net.sink).reaches u

lemma mem_cutOff {u : Fin n} :
    u ∈ net.cutOff capacity ↔ ¬ (Routes.search capacity net.sink).reaches u := by
  simp [cutOff]

lemma cutCapacity_cutOff (net : Network n) (capacity : Grid n) :
    cutCapacity capacity (net.cutOff capacity) = 0 := by
  rw [cutCapacity_eq_zero_iff]
  intro u hu v hv
  rw [mem_cutOff] at hu hv
  rw [not_not] at hv
  by_contra hne
  exact hu (Routes.closed_search capacity net.sink u v (Nat.pos_of_ne_zero hne) hv)

/-- Once pushes have cut the source off, the vertices that are cut off are the largest minimum
cut. -/
theorem IsResidual.isLargestMinCut (h : net.IsResidual capacity)
    (hsource : ¬ (Routes.search capacity net.sink).reaches net.source) :
    net.IsLargestMinCut (net.cutOff capacity) := by
  have hcut : net.IsCut (net.cutOff capacity) := by
    refine ⟨mem_cutOff.2 hsource, ?_⟩
    rw [mem_cutOff, not_not]
    exact Routes.reaches_search_target capacity net.sink
  have hzero := cutCapacity_cutOff net capacity
  obtain ⟨pushed, hpushed⟩ := h
  refine ⟨hcut, ?_, ?_⟩
  · intro other hother
    -- this cut has nothing left, and no cut can have less
    have hnonneg := cutCapacity_nonneg capacity other
    have hleft := hpushed _ hcut
    have hright := hpushed other hother
    omega
  · intro other hother hle u hu
    have hleft := hpushed _ hcut
    have hright := hpushed other hother
    have hother0 : cutCapacity capacity other = 0 := by
      have hnonneg := cutCapacity_nonneg capacity other
      omega
    rw [mem_cutOff, Routes.reaches_iff]
    rintro ⟨route, hroute⟩
    -- the route to the sink would leave the other cut by a pair with capacity
    obtain ⟨x, hx, y, hy, hpos⟩ :=
      ((Routes.sound_search capacity net.sink).isRoute hroute).exists_leaving hu
        hother.sink_notMem
    have := cutCapacity_eq_zero_iff.1 hother0 x hx y hy
    omega

/-- The vertices on the source's side. -/
def sourceSet (net : Network n) : Finset (Fin n) := net.cutOff net.residual

theorem isLargestMinCut_sourceSet (net : Network n) : net.IsLargestMinCut net.sourceSet :=
  net.isResidual_residual.isLargestMinCut net.not_reaches_source

lemma length_sourceSide (net : Network n) : net.sourceSide.length = n := by
  simp [sourceSide]

lemma getD_sourceSide (net : Network n) (u : Fin n) :
    net.sourceSide.getD u false = decide (u ∈ net.sourceSet) := by
  simp [sourceSide, sourceSet, mem_cutOff, List.getD_eq_getElem?_getD]

end Network

end PottsOracle
