import PottsOracle.Proofs.Potts.Relabel

/-!
# Models under another unit of measurement

All potentials and weights of a model may be multiplied by one positive number
(`PottsModel.Rescaled`).  The objective is multiplied by that number, too, and so is the largest
capacity, so that in units every capacity is what it was.  Hence no solver notices
(`PottsModel.Rescaled.solve_eq`): the first optimum of the objective stays the first one, and the
greatest optimum in units stays the greatest one.
-/

namespace PottsOracle

/-- The first optimum of a score is that of a positive multiple. -/
lemma Labeling.IsFirstOptimum.of_mul {n : ℕ} {score score' : Labeling → Rat} {y : Labeling}
    {c : Rat} (hc : 0 < c) (h : IsFirstOptimum n score y) (hscore : ∀ z, score' z = c * score z) :
    IsFirstOptimum n score' y := by
  refine ⟨h.length_eq, ?_, ?_⟩
  · intro z hz
    rw [hscore, hscore]
    exact mul_le_mul_of_nonneg_left (h.le z hz) hc.le
  · intro z hz hsame
    rw [hscore, hscore] at hsame
    exact h.first z hz (mul_left_cancel₀ hc.ne' hsame)

/-- A coupling with a multiple of its weight. -/
def Coupling.scaled (c : Rat) (d : Coupling Rat) : Coupling Rat := { d with weight := c * d.weight }

namespace PottsModel

/-- All potentials and weights of a model are multiplied by a positive number. -/
structure Rescaled (c : Rat) (m m' : PottsModel Rat) : Prop where
  pos : 0 < c
  potentials_eq : m'.potentials = m.potentials.map (c * ·)
  couplings_eq : m'.couplings = m.couplings.map (Coupling.scaled c)

namespace Rescaled

variable {c : Rat} {m m' : PottsModel Rat}

lemma order_eq (h : Rescaled c m m') : m'.order = m.order := by
  rw [order, order, h.potentials_eq, List.length_map]

lemma joinsNodes (h : Rescaled c m m') (hm : m.JoinsNodes) : m'.JoinsNodes := by
  intro d' hd'
  rw [h.couplings_eq] at hd'
  obtain ⟨d, hd, rfl⟩ := List.mem_map.1 hd'
  rw [h.order_eq]
  exact hm d hd

lemma getD_potentials (h : Rescaled c m m') (i : ℕ) :
    m'.potentials.getD i 0 = c * m.potentials.getD i 0 := by
  rw [h.potentials_eq, List.getD_eq_getElem?_getD, List.getD_eq_getElem?_getD, List.getElem?_map]
  cases m.potentials[i]? with
  | none => exact (mul_zero c).symm
  | some u => rfl

/-! ## Capacities -/

/-- The largest capacity is multiplied, too, because a positive factor keeps the order. -/
lemma maxCapacity_eq (h : Rescaled c m m') : m'.maxCapacity = c * m.maxCapacity := by
  have hmono : Monotone (c * · : Rat → Rat) := fun x y hle => mul_le_mul_of_nonneg_left hle h.pos.le
  have hcapacities : m'.capacities = (c * ·) '' m.capacities := by
    simp only [capacities, h.potentials_eq, h.couplings_eq, Set.image_insert_eq, Set.image_union,
      mul_zero]
    congr 2 <;> ext x <;> simp [Coupling.scaled, abs_mul, abs_of_pos h.pos]
  have hgreatest := hmono.map_isGreatest m.isGreatest_maxCapacity
  rw [← hcapacities] at hgreatest
  exact m'.isGreatest_maxCapacity.unique hgreatest

/-- A size has as many units as before. -/
lemma units_mul (h : Rescaled c m m') (x : Rat) : m'.units (c * x) = m.units x := by
  have hscaled : c * x * m'.scale = x * m.scale := by
    rw [scale_eq, scale_eq, h.maxCapacity_eq, mul_assoc, mul_div_assoc', mul_div_assoc',
      mul_div_mul_left _ _ h.pos.ne', mul_div_assoc']
  rw [units, units, hscaled]

lemma quantisedPotential_eq (h : Rescaled c m m') (i : ℕ) :
    m'.quantisedPotential i = m.quantisedPotential i := by
  simp only [quantisedPotential, h.getD_potentials, mul_eq_zero, h.pos.ne', false_or, sign_mul,
    sign_pos h.pos, one_mul, abs_mul, abs_of_pos h.pos, h.units_mul]

lemma lastWeight?_eq (h : Rescaled c m m') (i j : ℕ) :
    m'.lastWeight? i j = (m.lastWeight? i j).map (c * ·) := by
  rw [lastWeight?, lastWeight?, h.couplings_eq, ← List.map_reverse, List.find?_map, Option.map_map,
    Option.map_map]
  -- the factor changes neither which couplings have a weight nor where they are
  have hfound : (fun d : Coupling Rat => decide (d.weight ≠ 0 ∧ d.Joins i j)) ∘ Coupling.scaled c =
      fun d => decide (d.weight ≠ 0 ∧ d.Joins i j) := by
    funext d
    refine decide_eq_decide.2 ?_
    simp [Coupling.scaled, Coupling.Joins, h.pos.ne']
  rw [hfound]
  rfl

lemma quantisedWeight_eq (h : Rescaled c m m') (i j : ℕ) :
    m'.quantisedWeight i j = m.quantisedWeight i j := by
  rw [quantisedWeight, quantisedWeight, h.lastWeight?_eq]
  cases m.lastWeight? i j with
  | none => rfl
  | some w => exact h.units_mul w

/-! ## Objectives -/

lemma quantisedScore_eq (h : Rescaled c m m') : m'.quantisedScore = m.quantisedScore := by
  funext y
  simp only [quantisedScore, h.order_eq, h.quantisedPotential_eq, h.quantisedWeight_eq]

lemma exactScore_eq (h : Rescaled c m m') (y : Labeling) :
    m'.exactScore y = c * m.exactScore y := by
  have hcouplings : (m'.couplings.map fun d => if Agree y d then d.weight else 0) =
      (m.couplings.map fun d => if Agree y d then d.weight else 0).map (c * ·) := by
    rw [h.couplings_eq, List.map_map, List.map_map]
    refine List.map_congr_left fun d _ => ?_
    exact (mul_ite_zero _ _ _).symm
  rw [exactScore, exactScore, hcouplings, List.sum_map_mul_left, List.map_id', mul_add,
    Finset.mul_sum, h.order_eq]
  congr 1
  refine Finset.sum_congr rfl fun i _ => ?_
  rw [h.getD_potentials, mul_ite_zero]

/-! ## Solvers -/

/-- A solver finds the same labeling, or refuses the same number of nodes. -/
theorem solve_eq (h : Rescaled c m m') (hm : m.JoinsNodes) (solver : Solver) :
    m'.solve solver = m.solve solver := by
  cases solver with
  | minCut =>
    obtain ⟨y, hfound, hy⟩ := minCutLabeling_eq hm
    obtain ⟨y', hfound', hy'⟩ := minCutLabeling_eq (h.joinsNodes hm)
    rw [h.order_eq, h.quantisedScore_eq] at hy'
    rw [solve, solve, hfound, hfound', hy'.unique hy]
  | exhaustive =>
    rcases lt_or_ge maxSearchedNodes m.order with hmany | hfew
    · rw [solve, solve, exhaustiveLabeling_of_lt hmany,
        exhaustiveLabeling_of_lt (h.order_eq.symm ▸ hmany), h.order_eq]
    · obtain ⟨y, hfound, hy⟩ := exists_isFirstOptimum hm hfew
      obtain ⟨y', hfound', hy'⟩ :=
        exists_isFirstOptimum (h.joinsNodes hm) (h.order_eq.symm ▸ hfew)
      rw [h.order_eq] at hy'
      rw [solve, solve, hfound, hfound', hy'.unique (hy.of_mul h.pos h.exactScore_eq)]

end Rescaled

end PottsModel

end PottsOracle
