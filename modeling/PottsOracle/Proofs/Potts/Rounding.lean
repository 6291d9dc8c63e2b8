import Mathlib.Tactic
import PottsOracle.Proofs.Potts.GreatestOptimum
import PottsOracle.Proofs.Potts.Links
import PottsOracle.Proofs.Potts.Search

/-!
# How much rounding costs

The quantised objective is the scaled objective up to a constant, which comes from the couplings of
nodes with themselves, and one rounding error for every potential and every coupling that is taken
(`PottsModel.quantisedScore_eq_scale_mul`).  No error is larger than one unit.  Between two labelings
each error counts at most once, so that the labeling of the minimum cut misses the optimum by one
unit for every rounded capacity at most.
-/

namespace PottsOracle

namespace PottsModel

/-- The number of capacities that are rounded: the potentials and weights that are not zero, but for
couplings of a place with itself. -/
def roundedCount (m : PottsModel Rat) : Nat :=
  m.potentials.countP (· ≠ 0) + m.couplings.countP fun c => c.weight ≠ 0 ∧ c.first ≠ c.second

/-- All capacities are whole numbers of units. -/
structure IsWhole (m : PottsModel Rat) : Prop where
  potential : ∀ u ∈ m.potentials, u ≠ 0 → ∃ k : ℤ, |u| * m.scale = k
  weight : ∀ c ∈ m.couplings, c.weight ≠ 0 → c.first ≠ c.second → ∃ k : ℤ, c.weight * m.scale = k

/-- By how much the potential of a node is rounded up. -/
def nodeError (m : PottsModel Rat) (i : Nat) : Rat :=
  m.quantisedPotential i - m.scale * m.potentials.getD i 0

/-- By how much the weight of a coupling is rounded up; the weight between a place and itself is not
rounded. -/
def couplingError (m : PottsModel Rat) (c : Coupling Rat) : Rat :=
  if c.first = c.second then 0 else m.couplingUnits c - m.scale * c.weight

/-- The sum of the errors that a labeling takes. -/
def roundingError (m : PottsModel Rat) (y : Labeling) : Rat :=
  ∑ i ∈ Finset.range m.order, (if y.getD i false then m.nodeError i else 0)
    + (m.couplings.map fun c => if Agree y c then m.couplingError c else 0).sum

/-- The weight that no labeling can miss. -/
def loopWeight (m : PottsModel Rat) : Rat :=
  (m.couplings.map fun c => if c.first = c.second then c.weight else 0).sum

variable {m : PottsModel Rat}

/-! ## One capacity -/

lemma scale_pos (h : 0 < m.maxCapacity) : 0 < m.scale := by
  rw [scale_eq]
  exact div_pos (by norm_num) h

lemma abs_units_sub_le {x : Rat} (h : 0 < x * m.scale) : |(m.units x : Rat) - x * m.scale| ≤ 1 := by
  have hround := abs_halfEven_sub_le (x * m.scale)
  rw [units]
  rw [abs_le] at hround ⊢
  rcases le_or_gt 1 (halfEven (x * m.scale).num (x * m.scale).den) with hone | hone
  · rw [max_eq_right hone]
    constructor <;> linarith
  · -- what is rounded to zero is at most a half, and one unit is less than one too much
    have hzero : (halfEven (x * m.scale).num (x * m.scale).den : Rat) ≤ 0 := by
      exact_mod_cast Int.lt_add_one_iff.1 hone
    rw [max_eq_left hone.le]
    push_cast
    constructor <;> linarith

lemma units_of_eq_intCast {x : Rat} {k : ℤ} (h : 0 < x * m.scale) (hk : x * m.scale = k) :
    (m.units x : Rat) = x * m.scale := by
  have hpos : 0 < k := by exact_mod_cast hk ▸ h
  rw [units, hk, halfEven_intCast, max_eq_right (show 1 ≤ k by omega)]

lemma weight_pos {c : Coupling Rat} (hc : c ∈ m.couplings) (h : c.weight ≠ 0) : 0 < c.weight :=
  lt_of_le_of_ne (m.weight_nonneg hc) (Ne.symm h)

/-- A positive size up to the largest one is a positive number of units. -/
lemma mul_scale_pos {x : Rat} (h : 0 < x) (hle : x ≤ m.maxCapacity) : 0 < x * m.scale :=
  mul_pos h (scale_pos (h.trans_le hle))

/-- A potential is rounded as its size is. -/
lemma nodeError_eq {i : Nat} {u : Rat} (h : m.potentials[i]? = some u) :
    m.nodeError i = SignType.sign u * (m.units |u| - |u| * m.scale) := by
  have hget : m.potentials.getD i 0 = u := by
    rw [List.getD_eq_getElem?_getD, h]
    rfl
  rw [nodeError, quantisedPotential_eq h, hget]
  by_cases hzero : u = 0
  · simp [hzero]
  · rw [if_neg hzero]
    have hsign : (SignType.sign u : Rat) * |u| = u := sign_mul_abs u
    push_cast
    linear_combination m.scale * hsign

lemma abs_nodeError_le {i : Nat} (hi : i < m.order) :
    |m.nodeError i| ≤ if m.potentials.getD i 0 ≠ 0 then 1 else 0 := by
  have hget : m.potentials[i]? = some m.potentials[i] := List.getElem?_eq_getElem hi
  rw [nodeError_eq hget, List.getD_eq_getElem _ _ hi]
  generalize hu : m.potentials[i] = u
  have hmem : u ∈ m.potentials := hu ▸ List.getElem_mem hi
  by_cases hzero : u = 0
  · simp [hzero]
  · have hpos : 0 < |u| * m.scale := mul_scale_pos (abs_pos.2 hzero) (abs_le_maxCapacity hmem)
    have hsign : |(SignType.sign u : Rat)| = 1 := by
      rcases lt_or_gt_of_ne hzero with hneg | hpos
      · simp [sign_neg hneg]
      · simp [sign_pos hpos]
    rw [abs_mul, hsign, one_mul, if_pos hzero]
    exact abs_units_sub_le hpos

lemma abs_couplingError_le {c : Coupling Rat} (hc : c ∈ m.couplings) :
    |m.couplingError c| ≤ if c.weight ≠ 0 ∧ c.first ≠ c.second then 1 else 0 := by
  by_cases hloop : c.first = c.second
  · simp [couplingError, hloop]
  · by_cases hzero : c.weight = 0
    · simp [couplingError, couplingUnits, hloop, hzero]
    · have hpos := mul_scale_pos (weight_pos hc hzero) (weight_le_maxCapacity hc)
      rw [couplingError, couplingUnits, if_neg hloop, if_neg (by simp [hzero, hloop]),
        if_pos ⟨hzero, hloop⟩, mul_comm m.scale]
      exact abs_units_sub_le hpos

/-! ## Both objectives -/

/-- The quantised objective is the scaled one, less the weight that every labeling takes, and with
the errors of what is taken. -/
lemma quantisedScore_eq_scale_mul (hm : m.JoinsNodes) (hsimple : m.IsSimple) (y : Labeling) :
    (m.quantisedScore y : Rat) =
      m.scale * m.exactScore y - m.scale * m.loopWeight + m.roundingError y := by
  have hnodes : (∑ i ∈ Finset.range m.order,
        ((if y.getD i false then m.quantisedPotential i else 0 : ℤ) : Rat)) =
      m.scale * ∑ i ∈ Finset.range m.order, (if y.getD i false then m.potentials.getD i 0 else 0)
        + ∑ i ∈ Finset.range m.order, if y.getD i false then m.nodeError i else 0 := by
    rw [Finset.mul_sum, ← Finset.sum_add_distrib]
    refine Finset.sum_congr rfl fun i _ => ?_
    unfold nodeError
    split
    · ring
    · simp
  have hcouplings : ∀ couplings : List (Coupling Rat),
      (((couplings.map fun c => if Agree y c then m.couplingUnits c else 0).sum : ℤ) : Rat) =
        m.scale * (couplings.map fun c => if Agree y c then c.weight else 0).sum
          - m.scale * (couplings.map fun c => if c.first = c.second then c.weight else 0).sum
          + (couplings.map fun c => if Agree y c then m.couplingError c else 0).sum := by
    intro couplings
    induction couplings with
    | nil => simp
    | cons c couplings ih =>
      simp only [List.map_cons, List.sum_cons]
      rw [Int.cast_add, ih]
      by_cases hloop : c.first = c.second
      · -- every labeling takes a loop, which has a weight but no units
        have hagree : Agree y c := by rw [Agree, hloop]
        simp only [hagree, hloop, if_true, couplingError, couplingUnits, or_true]
        push_cast
        ring
      · by_cases hagree : Agree y c
        · simp only [hagree, hloop, if_true, if_false, couplingError]
          ring
        · simp only [hagree, hloop, if_false]
          push_cast
          ring
  rw [quantisedScore_eq_sum hm hsimple, exactScore, loopWeight, roundingError, Int.cast_add,
    Int.cast_sum, hcouplings, hnodes]
  ring

/-! ## Between two labelings -/

/-- An error counts at most once between two choices. -/
lemma taken_sub_taken_le (p q : Prop) [Decidable p] [Decidable q] (e : Rat) :
    (if p then e else 0) - (if q then e else 0) ≤ |e| := by
  have hupper := le_abs_self e
  have hlower := neg_abs_le e
  have hzero := abs_nonneg e
  split_ifs <;> linarith

lemma sum_range_ite_ne_zero (entries : List Rat) :
    (∑ i ∈ Finset.range entries.length, if entries.getD i 0 ≠ 0 then (1 : Rat) else 0) =
      entries.countP (· ≠ 0) := by
  induction entries with
  | nil => simp
  | cons x entries ih =>
    rw [List.length_cons, Finset.sum_range_succ', List.countP_cons]
    simp only [List.getD_cons_succ, List.getD_cons_zero]
    rw [ih]
    by_cases hx : x = 0 <;> simp [hx]

lemma sum_nodeError_sub_le (y z : Labeling) :
    (∑ i ∈ Finset.range m.order, if y.getD i false then m.nodeError i else 0)
      - (∑ i ∈ Finset.range m.order, if z.getD i false then m.nodeError i else 0) ≤
      m.potentials.countP (· ≠ 0) := by
  rw [← Finset.sum_sub_distrib, ← sum_range_ite_ne_zero]
  refine Finset.sum_le_sum fun i hi => ?_
  exact (taken_sub_taken_le _ _ _).trans (abs_nodeError_le (Finset.mem_range.1 hi))

lemma sum_couplingError_sub_le (y z : Labeling) {couplings : List (Coupling Rat)}
    (hsub : ∀ c ∈ couplings, c ∈ m.couplings) :
    (couplings.map fun c => if Agree y c then m.couplingError c else 0).sum
      - (couplings.map fun c => if Agree z c then m.couplingError c else 0).sum ≤
      couplings.countP fun c => c.weight ≠ 0 ∧ c.first ≠ c.second := by
  induction couplings with
  | nil => simp
  | cons c couplings ih =>
    have hrest := ih fun d hd => hsub d (List.mem_cons_of_mem c hd)
    have hc := (taken_sub_taken_le (Agree y c) (Agree z c) (m.couplingError c)).trans
      (abs_couplingError_le (hsub c List.mem_cons_self))
    simp only [List.map_cons, List.sum_cons, List.countP_cons, decide_eq_true_eq]
    push_cast
    linarith

lemma roundingError_sub_le (y z : Labeling) :
    m.roundingError y - m.roundingError z ≤ m.roundedCount := by
  have hnodes := sum_nodeError_sub_le (m := m) y z
  have hcouplings := sum_couplingError_sub_le (m := m) y z fun _ h => h
  rw [roundingError, roundingError, roundedCount]
  push_cast
  linarith

/-! ## Models that are not rounded -/

lemma nodeError_eq_zero (h : m.IsWhole) {i : Nat} (hi : i < m.order) : m.nodeError i = 0 := by
  have hget : m.potentials[i]? = some m.potentials[i] := List.getElem?_eq_getElem hi
  have hmem : m.potentials[i] ∈ m.potentials := List.getElem_mem hi
  rw [nodeError_eq hget]
  by_cases hzero : m.potentials[i] = 0
  · simp [hzero]
  · obtain ⟨k, hk⟩ := h.potential _ hmem hzero
    rw [units_of_eq_intCast (mul_scale_pos (abs_pos.2 hzero) (abs_le_maxCapacity hmem)) hk,
      sub_self, mul_zero]

lemma couplingError_eq_zero (h : m.IsWhole) {c : Coupling Rat} (hc : c ∈ m.couplings) :
    m.couplingError c = 0 := by
  rw [couplingError]
  split
  · rfl
  · rename_i hloop
    by_cases hzero : c.weight = 0
    · simp [couplingUnits, hzero]
    · obtain ⟨k, hk⟩ := h.weight c hc hzero hloop
      have hpos := mul_scale_pos (weight_pos hc hzero) (weight_le_maxCapacity hc)
      rw [couplingUnits, if_neg (by simp [hzero, hloop]), units_of_eq_intCast hpos hk, mul_comm,
        sub_self]

lemma roundingError_eq_zero (h : m.IsWhole) (y : Labeling) : m.roundingError y = 0 := by
  have hnodes : ∀ i ∈ Finset.range m.order,
      (if y.getD i false then m.nodeError i else 0) = 0 := by
    intro i hi
    rw [nodeError_eq_zero h (Finset.mem_range.1 hi), ite_self]
  have hcouplings : ∀ x ∈ m.couplings.map fun c => if Agree y c then m.couplingError c else 0,
      x = 0 := by
    intro x hx
    obtain ⟨c, hc, rfl⟩ := List.mem_map.1 hx
    rw [couplingError_eq_zero h hc, ite_self]
  rw [roundingError, Finset.sum_eq_zero hnodes, List.sum_eq_zero hcouplings, add_zero]

/-! ## The labeling of the minimum cut -/

/-- Without any capacity nothing can be gained. -/
lemma exactScore_eq_zero (h : m.maxCapacity = 0) (y : Labeling) : m.exactScore y = 0 := by
  have hpotential : ∀ i ∈ Finset.range m.order,
      (if y.getD i false then m.potentials.getD i 0 else 0) = 0 := by
    intro i hi
    have hi := Finset.mem_range.1 hi
    have hle : |m.potentials[i]| ≤ 0 := (abs_le_maxCapacity (List.getElem_mem hi)).trans h.le
    rw [List.getD_eq_getElem _ _ hi, abs_nonpos_iff.1 hle, ite_self]
  have hweight : ∀ x ∈ m.couplings.map fun c => if Agree y c then c.weight else 0, x = 0 := by
    intro x hx
    obtain ⟨c, hc, rfl⟩ := List.mem_map.1 hx
    rw [le_antisymm ((weight_le_maxCapacity hc).trans h.le) (m.weight_nonneg hc), ite_self]
  rw [exactScore, Finset.sum_eq_zero hpotential, List.sum_eq_zero hweight, add_zero]

/-- A labeling of largest quantised objective misses the optimum by one unit for every rounded
capacity at most. -/
lemma exactScore_sub_le (hm : m.JoinsNodes) (hsimple : m.IsSimple) {y z : Labeling}
    (h : m.quantisedScore z ≤ m.quantisedScore y) :
    m.exactScore z - m.roundedCount * m.maxCapacity / 2 ^ 40 ≤ m.exactScore y := by
  rcases m.maxCapacity_nonneg.eq_or_lt with hcapacity | hcapacity
  · rw [exactScore_eq_zero hcapacity.symm, exactScore_eq_zero hcapacity.symm, ← hcapacity]
    simp
  · have hscale : 0 < m.scale := scale_pos hcapacity
    -- one unit, scaled back
    have hunit : m.scale * (m.maxCapacity / 2 ^ 40) = 1 := by
      rw [scale_eq]
      field_simp
    have herror := roundingError_sub_le (m := m) y z
    have hquantised : (m.quantisedScore z : Rat) ≤ m.quantisedScore y := by exact_mod_cast h
    rw [quantisedScore_eq_scale_mul hm hsimple, quantisedScore_eq_scale_mul hm hsimple] at hquantised
    have hscaled : m.scale * (m.exactScore z - m.roundedCount * (m.maxCapacity / 2 ^ 40)) ≤
        m.scale * m.exactScore y := by
      linear_combination hquantised + herror - m.roundedCount * hunit
    rw [mul_div_assoc]
    exact le_of_mul_le_mul_left hscaled hscale

/-- Without rounding the quantised objective orders labelings as the objective does. -/
lemma quantisedScore_le_iff (hm : m.JoinsNodes) (hsimple : m.IsSimple) (hwhole : m.IsWhole)
    {y z : Labeling} :
    m.quantisedScore z ≤ m.quantisedScore y ↔ m.exactScore z ≤ m.exactScore y := by
  rcases m.maxCapacity_nonneg.eq_or_lt with hcapacity | hcapacity
  · simp [exactScore_eq_zero hcapacity.symm, quantisedScore_eq_zero hcapacity.symm]
  · rw [← Int.cast_le (R := Rat), quantisedScore_eq_scale_mul hm hsimple,
      quantisedScore_eq_scale_mul hm hsimple, roundingError_eq_zero hwhole,
      roundingError_eq_zero hwhole, add_zero, add_zero, sub_le_sub_iff_right,
      mul_le_mul_iff_right₀ (scale_pos hcapacity)]

/-- Without repeated couplings the minimum cut misses the optimum by one unit for every rounded
capacity at most.  If nothing is rounded it finds the optimum that the exhaustive search finds, and
makes every node true that the search makes true. -/
theorem minCutLabeling_refines_exhaustive (m : PottsModel Rat) (hm : m.JoinsNodes)
    (hsimple : m.IsSimple) :
    ∃ y best, m.minCutLabeling = .ok y ∧ m.score? y = some best ∧
      (∀ z : Labeling, z.length = m.order → ∃ score, m.score? z = some score ∧
        score - m.roundedCount * m.maxCapacity / 2 ^ 40 ≤ best) ∧
      (m.IsWhole → m.order ≤ maxSearchedNodes →
        ∃ z, m.exhaustiveLabeling = .ok z ∧ m.score? z = some best ∧ Labeling.Below z y) := by
  obtain ⟨y, hfound, hgreatest⟩ := minCutLabeling_eq hm
  refine ⟨y, m.exactScore y, hfound, score?_eq hm hgreatest.length_eq, ?_, ?_⟩
  · intro z hz
    exact ⟨m.exactScore z, score?_eq hm hz, exactScore_sub_le hm hsimple (hgreatest.le z hz)⟩
  · intro hwhole hn
    obtain ⟨z, hsearched, hz, hbest⟩ := exhaustiveLabeling_eq hm hn
    have hle : m.exactScore y ≤ m.exactScore z :=
      hbest.le (List.mem_cons_of_mem _ (mem_allLabelings.2 hgreatest.length_eq))
    have hge : m.exactScore z ≤ m.exactScore y :=
      (quantisedScore_le_iff hm hsimple hwhole).1 (hgreatest.le z hz)
    have hquantised : m.quantisedScore z = m.quantisedScore y :=
      le_antisymm (hgreatest.le z hz) ((quantisedScore_le_iff hm hsimple hwhole).2 hle)
    refine ⟨z, hsearched, ?_, hgreatest.below z hz hquantised⟩
    rw [score?_eq hm hz, le_antisymm hge hle]

/-- Three nodes with a repeated loop, in whole units and with ties. -/
def wholeModel : PottsModel Rat where
  potentials := [1, -1 / 2, 0]
  couplings := [⟨0, 1, 1 / 2⟩, ⟨2, 2, 4⟩, ⟨2, 2, 4⟩, ⟨2, 1, 0⟩]
  not_hasNegative := by
    rw [HasNegative, Scalar.minimum?_any_lt_zero_iff]
    norm_num

lemma maxCapacity_wholeModel : wholeModel.maxCapacity = 4 := by
  decide +kernel

lemma isWhole_wholeModel : wholeModel.IsWhole := by
  have hscale : wholeModel.scale = 2 ^ 38 := by
    rw [scale_eq, maxCapacity_wholeModel]
    norm_num
  constructor
  · intro u hu _
    rw [hscale]
    have hu : u = 1 ∨ u = -1 / 2 ∨ u = 0 := by simpa [wholeModel] using hu
    rcases hu with rfl | rfl | rfl
    · exact ⟨2 ^ 38, by norm_num⟩
    · exact ⟨2 ^ 37, by norm_num [abs_of_neg]⟩
    · exact ⟨0, by norm_num⟩
  · intro c hc _ _
    rw [hscale]
    have hc : c = ⟨0, 1, 1 / 2⟩ ∨ c = ⟨2, 2, 4⟩ ∨ c = ⟨2, 1, 0⟩ := by
      simpa [wholeModel] using hc
    rcases hc with rfl | rfl | rfl
    · exact ⟨2 ^ 37, by norm_num⟩
    · exact ⟨2 ^ 40, by norm_num⟩
    · exact ⟨0, by norm_num⟩

theorem wholeModel_refines_exhaustive :
    wholeModel.JoinsNodes ∧ wholeModel.IsSimple ∧ wholeModel.IsWhole ∧
      ∃ y best z, wholeModel.minCutLabeling = .ok y ∧ wholeModel.score? y = some best ∧
        (∀ z : Labeling, z.length = 3 → ∃ score, wholeModel.score? z = some score ∧
          score - 3 * 4 / 2 ^ 40 ≤ best) ∧
        wholeModel.exhaustiveLabeling = .ok z ∧ wholeModel.score? z = some best ∧
          Labeling.Below z y := by
  have hm : wholeModel.JoinsNodes := by decide
  have hsimple : wholeModel.IsSimple := by decide
  obtain ⟨y, best, hfound, hscore, hnear, hexact⟩ :=
    minCutLabeling_refines_exhaustive wholeModel hm hsimple
  obtain ⟨z, hsearched, hsame, hbelow⟩ := hexact isWhole_wholeModel (by decide)
  have horder : wholeModel.order = 3 := rfl
  have hcount : wholeModel.roundedCount = 3 := by decide +kernel
  refine ⟨hm, hsimple, isWhole_wholeModel, y, best, z, hfound, hscore, ?_, hsearched, hsame, hbelow⟩
  rw [horder, hcount, maxCapacity_wholeModel] at hnear
  exact_mod_cast hnear

end PottsModel

end PottsOracle
