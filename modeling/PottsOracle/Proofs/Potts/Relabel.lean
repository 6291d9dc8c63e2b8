import PottsOracle.Proofs.Potts.GreatestOptimum
import PottsOracle.Proofs.Potts.Links
import PottsOracle.Proofs.Potts.Rounding
import PottsOracle.Proofs.Rearranged

/-!
# Potts models whose nodes are numbered anew

Two models may differ in the numbers of their nodes, in the order of their couplings, and in the
direction in which couplings are given (`PottsModel.Relabeled`).  A model has the same quantised
objective under both descriptions.  Optimal labelings need not be unique, but the greatest one is,
and so the minimum cut finds corresponding labelings (`PottsModel.Relabeled.minCutLabeling_moved`).
-/

namespace PottsOracle

/-- A coupling under new numbers, in the same direction or turned around. -/
inductive Coupling.Renamed {K : Type} (σ : Equiv.Perm ℕ) : Coupling K → Coupling K → Prop
  | kept (i j : ℕ) (w : K) : Renamed σ ⟨i, j, w⟩ ⟨σ i, σ j, w⟩
  | turned (i j : ℕ) (w : K) : Renamed σ ⟨i, j, w⟩ ⟨σ j, σ i, w⟩

namespace Labeling

variable {n : ℕ} {score score' : Labeling → ℤ} {y z : Labeling} {σ : Equiv.Perm ℕ}

/-- There is only one greatest optimum. -/
lemma IsGreatestOptimum.unique (hy : IsGreatestOptimum n score y)
    (hz : IsGreatestOptimum n score z) : y = z := by
  have hscore : score y = score z :=
    le_antisymm (hz.le y hy.length_eq) (hy.le z hz.length_eq)
  have hyz := hz.below y hy.length_eq hscore
  have hzy := hy.below z hz.length_eq hscore.symm
  refine List.ext_getElem (hy.length_eq.trans hz.length_eq.symm) fun i hi hi' => ?_
  have hiff : y.getD i false = true ↔ z.getD i false = true := ⟨hyz i, hzy i⟩
  rwa [List.getD_eq_getElem _ _ hi, List.getD_eq_getElem _ _ hi', ← Bool.eq_iff_iff] at hiff

/-- Moved to its new places, the greatest optimum stays one. -/
lemma IsGreatestOptimum.moved (hy : IsGreatestOptimum n score y) (hyz : Moved σ y z)
    (hscore : ∀ x x' : Labeling, x.length = n → Moved σ x x' → score' x' = score x) :
    IsGreatestOptimum n score' z := by
  have hz : z.length = n := hyz.length_eq.trans hy.length_eq
  have hback : ∀ x' : Labeling, x'.length = n → ∃ x : Labeling, x.length = n ∧ Moved σ x x' := by
    intro x' hx'
    have hrange : ∀ j, j < x'.length ↔ σ.symm j < x'.length := by
      intro j
      rw [hx', ← hy.length_eq, hyz.lt_length_iff (σ.symm j), σ.apply_symm_apply, hyz.length_eq]
    obtain ⟨x, hx⟩ := Moved.exists_of_range hrange
    exact ⟨x, hx.length_eq.trans hx', hx.symm⟩
  refine ⟨hz, ?_, ?_⟩
  · intro x' hx'
    obtain ⟨x, hx, hmoved⟩ := hback x' hx'
    rw [hscore x x' hx hmoved, hscore y z hy.length_eq hyz]
    exact hy.le x hx
  · intro x' hx' hsame j hj
    obtain ⟨x, hx, hmoved⟩ := hback x' hx'
    rw [hscore x x' hx hmoved, hscore y z hy.length_eq hyz] at hsame
    obtain ⟨i, rfl⟩ := σ.surjective j
    rw [hmoved.getD_eq] at hj
    rw [hyz.getD_eq]
    exact hy.below x hx hsame i hj

end Labeling

namespace PottsModel

/-- Two models differ in the numbers of their nodes and in how their couplings are listed. -/
structure Relabeled {K : Type} [Scalar K] (σ : Equiv.Perm ℕ) (m m' : PottsModel K) : Prop where
  potentials : Moved σ m.potentials m'.potentials
  couplings : Rearranged (Coupling.Renamed σ) m.couplings m'.couplings

namespace Relabeled

variable {σ : Equiv.Perm ℕ} {m m' : PottsModel Rat}

lemma order_eq (h : Relabeled σ m m') : m'.order = m.order := h.potentials.length_eq

/-- Both models are scaled by the same factor. -/
lemma maxCapacity_eq (h : Relabeled σ m m') : m'.maxCapacity = m.maxCapacity := by
  have hpotentials := h.potentials.perm
  have hweights : (m.couplings.map (·.weight)).Perm (m'.couplings.map (·.weight)) :=
    h.couplings.map_perm fun c c' hc => by cases hc <;> rfl
  have hcapacities : m'.capacities = m.capacities := by
    simp only [capacities, ← List.mem_map, hpotentials.mem_iff, hweights.mem_iff]
  exact m'.isGreatest_maxCapacity.unique (hcapacities ▸ m.isGreatest_maxCapacity)

lemma quantisedPotential_eq (h : Relabeled σ m m') (i : ℕ) :
    m'.quantisedPotential (σ i) = m.quantisedPotential i := by
  rw [quantisedPotential, quantisedPotential, h.potentials.getD_eq, units_congr h.maxCapacity_eq]

/-- A coupling counts for as much as under its old numbers. -/
lemma coupling_eq (h : Relabeled σ m m') {y y' : Labeling} (hy : Moved σ y y')
    {c c' : Coupling Rat} (hc : c.Renamed σ c') :
    (if Agree y c then m.couplingUnits c else 0) = if Agree y' c' then m'.couplingUnits c' else 0 := by
  cases hc with
  | kept i j w =>
    simp only [Agree, couplingUnits, Int.toNat_natCast, hy.getD_eq, units_congr h.maxCapacity_eq, Nat.cast_inj,
      σ.injective.eq_iff]
  | turned i j w =>
    simp only [Agree, couplingUnits, Int.toNat_natCast, hy.getD_eq, units_congr h.maxCapacity_eq, Nat.cast_inj,
      σ.injective.eq_iff, eq_comm]

/-- A labeling has the same quantised objective after its labels are moved. -/
theorem quantisedScore_eq (h : Relabeled σ m m') (hm : m.JoinsNodes) (hm' : m'.JoinsNodes)
    (hsimple : m.IsSimple) (hsimple' : m'.IsSimple) {y y' : Labeling} (hy : Moved σ y y') :
    m'.quantisedScore y' = m.quantisedScore y := by
  have hnodes : ∑ i ∈ Finset.range m.order, (if y.getD i false then m.quantisedPotential i else 0) =
      ∑ i ∈ Finset.range m'.order, if y'.getD i false then m'.quantisedPotential i else 0 := by
    refine Finset.sum_equiv σ ?_ ?_
    · intro i
      rw [Finset.mem_range, Finset.mem_range]
      exact h.potentials.lt_length_iff i
    · intro i _
      rw [hy.getD_eq, h.quantisedPotential_eq]
  have hcouplings := (h.couplings.map_perm fun c c' => h.coupling_eq hy).sum_eq
  rw [quantisedScore_eq_sum hm hsimple, quantisedScore_eq_sum hm' hsimple', hnodes, hcouplings]

/-- The minimum cut finds the same labeling for both models, every label at its new place. -/
theorem minCutLabeling_moved (h : Relabeled σ m m') (hm : m.JoinsNodes) (hm' : m'.JoinsNodes)
    (hsimple : m.IsSimple) (hsimple' : m'.IsSimple) :
    ∃ y y', m.minCutLabeling = .ok y ∧ m'.minCutLabeling = .ok y' ∧ Moved σ y y' := by
  obtain ⟨y, hfound, hy⟩ := minCutLabeling_eq hm
  obtain ⟨y', hfound', hy'⟩ := minCutLabeling_eq hm'
  have hrange : ∀ i, i < y.length ↔ σ i < y.length := by
    intro i
    rw [hy.length_eq, order, h.potentials.lt_length_iff, h.potentials.length_eq]
  obtain ⟨z, hz⟩ := Moved.exists_of_range hrange
  have hgreatest : Labeling.IsGreatestOptimum m'.order m'.quantisedScore z := by
    rw [h.order_eq]
    exact hy.moved hz fun x x' _ => h.quantisedScore_eq hm hm' hsimple hsimple'
  obtain rfl := hgreatest.unique hy'
  exact ⟨y, z, hfound, hfound', hz⟩

end Relabeled

end PottsModel

end PottsOracle
