import PottsOracle.Proofs.Potts.Relabel

/-!
# Models that differ in their potentials

Two models with the same couplings and the same largest capacity are scaled alike
(`PottsModel.ScaledAlike`).  Then a potential that is not smaller is not smaller in units, either,
and the quantised objectives differ by the units of true nodes alone
(`PottsModel.ScaledAlike.quantisedScore_sub`).

A labeling that is the greatest optimum stays it if the objective changes most in its favour
(`Labeling.IsGreatestOptimum.of_favoured`).
-/

namespace PottsOracle

/-- The greatest optimum stays the greatest one if no other labeling gains more. -/
lemma Labeling.IsGreatestOptimum.of_favoured {n : ℕ} {score score' : Labeling → ℤ} {y : Labeling}
    (h : IsGreatestOptimum n score y)
    (hgain : ∀ z : Labeling, z.length = n → score' z - score z ≤ score' y - score y) :
    IsGreatestOptimum n score' y := by
  refine ⟨h.length_eq, ?_, ?_⟩
  · intro z hz
    have hle := h.le z hz
    have hmore := hgain z hz
    omega
  · intro z hz hsame
    have hle := h.le z hz
    have hmore := hgain z hz
    exact h.below z hz (by omega)

namespace PottsModel

/-- Two models have the same couplings and the same largest capacity, and so many potentials. -/
structure ScaledAlike (m m' : PottsModel Rat) : Prop where
  order_eq : m'.order = m.order
  couplings_eq : m'.couplings = m.couplings
  maxCapacity_eq : m'.maxCapacity = m.maxCapacity

namespace ScaledAlike

variable {m m' : PottsModel Rat}

lemma symm (h : ScaledAlike m m') : ScaledAlike m' m :=
  ⟨h.order_eq.symm, h.couplings_eq.symm, h.maxCapacity_eq.symm⟩

lemma quantisedWeight_eq (h : ScaledAlike m m') (i j : ℕ) :
    m'.quantisedWeight i j = m.quantisedWeight i j := by
  rw [quantisedWeight, quantisedWeight, lastWeight?, lastWeight?, h.couplings_eq,
    units_congr h.maxCapacity_eq]

/-- The weights between nodes cancel out. -/
lemma quantisedScore_sub (h : ScaledAlike m m') (y : Labeling) :
    m'.quantisedScore y - m.quantisedScore y =
      ∑ i ∈ Finset.range m.order,
        if y.getD i false then m'.quantisedPotential i - m.quantisedPotential i else 0 := by
  simp only [quantisedScore, h.quantisedWeight_eq, h.order_eq]
  rw [add_sub_add_right_eq_sub, ← Finset.sum_sub_distrib]
  refine Finset.sum_congr rfl fun i _ => ?_
  split
  · rfl
  · rfl

end ScaledAlike

variable {m m' : PottsModel Rat}

lemma units_mono {x y : Rat} (h : x ≤ y) : m.units x ≤ m.units y := by
  have hscale : 0 ≤ m.scale := by
    rw [scale_eq]
    exact div_nonneg (by norm_num) m.maxCapacity_nonneg
  exact max_le_max le_rfl (halfEven_mono (mul_le_mul_of_nonneg_right h hscale))

/-- A larger number has a larger number of units, with its sign. -/
lemma signedUnits_mono {u v : Rat} (h : u ≤ v) :
    (if u = 0 then 0 else (SignType.sign u : ℤ) * m.units |u|) ≤
      if v = 0 then 0 else (SignType.sign v : ℤ) * m.units |v| := by
  have hu := one_le_units (m := m) |u|
  have hv := one_le_units (m := m) |v|
  rcases lt_trichotomy u 0 with hneg | rfl | hpos
  · rcases lt_trichotomy v 0 with hneg' | rfl | hpos'
    · have hunits : m.units |v| ≤ m.units |u| :=
        units_mono (by rw [abs_of_neg hneg, abs_of_neg hneg']; linarith)
      simp only [hneg.ne, hneg'.ne, if_false, sign_neg hneg, sign_neg hneg', SignType.coe_neg_one]
      omega
    · simp only [hneg.ne, if_false, sign_neg hneg, SignType.coe_neg_one, if_true]
      omega
    · simp only [hneg.ne, hpos'.ne', if_false, sign_neg hneg, sign_pos hpos', SignType.coe_neg_one,
        SignType.coe_one]
      omega
  · rcases h.eq_or_lt with rfl | hpos'
    · exact le_rfl
    · simp only [hpos'.ne', if_true, if_false, sign_pos hpos', SignType.coe_one]
      omega
  · have hpos' : 0 < v := hpos.trans_le h
    have hunits : m.units |u| ≤ m.units |v| :=
      units_mono (by rw [abs_of_pos hpos, abs_of_pos hpos']; exact h)
    simp only [hpos.ne', hpos'.ne', if_false, sign_pos hpos, sign_pos hpos', SignType.coe_one]
    omega

/-- Units keep the order of potentials. -/
lemma ScaledAlike.quantisedPotential_le (h : ScaledAlike m m') {i : ℕ}
    (hle : m.potentials.getD i 0 ≤ m'.potentials.getD i 0) :
    m.quantisedPotential i ≤ m'.quantisedPotential i := by
  rw [quantisedPotential, quantisedPotential, units_congr h.maxCapacity_eq]
  exact signedUnits_mono hle

/-- If potentials only change in favour of the labels that the minimum cut finds, it finds them
again. -/
theorem ScaledAlike.minCutLabeling_of_favoured (h : ScaledAlike m m') (hm : m.JoinsNodes)
    {y : Labeling} (hy : m.minCutLabeling = .ok y)
    (hfavoured : ∀ i < m.order, if y.getD i false then
      m.potentials.getD i 0 ≤ m'.potentials.getD i 0 else
      m'.potentials.getD i 0 ≤ m.potentials.getD i 0) : m'.minCutLabeling = .ok y := by
  have hm' : m'.JoinsNodes := by
    rw [JoinsNodes, h.couplings_eq, h.order_eq]
    exact hm
  obtain ⟨z, hz, hgreatest⟩ := minCutLabeling_eq hm
  obtain rfl : z = y := Except.ok.inj (hz.symm.trans hy)
  obtain ⟨z', hz', hgreatest'⟩ := minCutLabeling_eq hm'
  have hstays : Labeling.IsGreatestOptimum m.order m'.quantisedScore z := by
    refine hgreatest.of_favoured fun x _ => ?_
    rw [h.quantisedScore_sub, h.quantisedScore_sub]
    refine Finset.sum_le_sum fun i hi => ?_
    have hi := hfavoured i (Finset.mem_range.1 hi)
    -- a node of the labeling has not lost, and any other node has not gained
    cases hlabel : z.getD i false with
    | true =>
      rw [hlabel, if_pos rfl] at hi
      have hle := h.quantisedPotential_le hi
      split
      · exact le_rfl
      · simpa using hle
    | false =>
      rw [hlabel, if_neg Bool.false_ne_true] at hi
      have hle := h.symm.quantisedPotential_le hi
      split
      · simpa using hle
      · exact le_rfl
  rw [h.order_eq] at hgreatest'
  rw [hz', hgreatest'.unique hstays]

end PottsModel

end PottsOracle
