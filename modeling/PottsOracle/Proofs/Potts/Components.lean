import Mathlib.Combinatorics.SimpleGraph.Connectivity.Finite
import PottsOracle.Proofs.Potts.GreatestOptimum

/-!
# Components whose potentials have one sign

The couplings that count make a graph (`PottsModel.weightGraph`).  Where all potentials of a
connected component have one sign, the minimum cut labels the whole component by it
(`PottsModel.minCutLabeling_component`), however small these potentials are beside others.

Potentials keep their sign when they become whole numbers (`PottsModel.sign_quantisedPotential`),
and every weight keeps at least one unit.  So a set of nodes that no weight joins to the rest can be
painted with the label that its potentials favour, and no part of the objective falls
(`PottsModel.nodeGain_le_painted`, `PottsModel.pairGain_le_painted`).  An optimum cannot gain by it,
so that no part rises, either (`PottsModel.gains_eq_of_isGreatestOptimum`).
-/

namespace PottsOracle

/-! ## Painted labelings -/

namespace Labeling

/-- A labeling in which some nodes have all been given one label. -/
def painted (y : Labeling) (nodes : Finset ℕ) (label : Bool) : Labeling :=
  y.mapIdx fun i old => if i ∈ nodes then label else old

variable {y : Labeling} {nodes : Finset ℕ} {label : Bool} {i : ℕ}

@[simp]
lemma length_painted : (y.painted nodes label).length = y.length := List.length_mapIdx

lemma getD_painted_of_mem (hi : i < y.length) (hmem : i ∈ nodes) :
    (y.painted nodes label).getD i false = label := by
  simp [painted, List.getD_eq_getElem?_getD, hi, hmem]

lemma getD_painted_of_notMem (hmem : i ∉ nodes) :
    (y.painted nodes label).getD i false = y.getD i false := by
  simp [painted, List.getD_eq_getElem?_getD, hmem]

end Labeling

namespace PottsModel

variable {m : PottsModel Rat}

/-! ## Signs and weights -/

/-- A potential has the same sign in units. -/
lemma sign_quantisedPotential (i : ℕ) :
    SignType.sign (m.quantisedPotential i) = SignType.sign (m.potentials.getD i 0) := by
  have hunits : ∀ x, SignType.sign (m.units x) = 1 :=
    fun x => sign_pos (zero_lt_one.trans_le (one_le_units x))
  unfold quantisedPotential
  generalize m.potentials.getD i 0 = u
  by_cases hu : u = 0
  · simp [hu]
  · simp only [if_neg hu]
    rw [sign_mul, hunits, mul_one]
    rcases lt_or_gt_of_ne hu with hneg | hpos
    · rw [sign_neg hneg]
      rfl
    · rw [sign_pos hpos]
      rfl

lemma quantisedWeight_nonneg (i j : ℕ) : 0 ≤ m.quantisedWeight i j := by
  rw [quantisedWeight]
  cases m.lastWeight? i j with
  | none => exact le_rfl
  | some w => exact zero_le_one.trans (one_le_units w)

/-- Two nodes have a weight in units if and only if some coupling with a weight joins them. -/
lemma quantisedWeight_ne_zero_iff {i j : ℕ} :
    m.quantisedWeight i j ≠ 0 ↔ ∃ c ∈ m.couplings, c.weight ≠ 0 ∧ c.Joins i j := by
  rw [quantisedWeight]
  cases hlast : m.lastWeight? i j with
  | none =>
    rw [lastWeight?, Option.map_eq_none_iff, List.find?_eq_none] at hlast
    simpa using hlast
  | some w =>
    have hpos : m.units w ≠ 0 := (zero_lt_one.trans_le (one_le_units w)).ne'
    obtain ⟨c, hc, -⟩ := Option.map_eq_some_iff.1 hlast
    have hjoins := List.find?_some hc
    rw [decide_eq_true_eq] at hjoins
    exact ⟨fun _ => ⟨c, List.mem_reverse.1 (List.mem_of_find?_eq_some hc), hjoins⟩, fun _ => hpos⟩

/-! ## Gains -/

/-- What a node adds to the quantised objective. -/
def nodeGain (m : PottsModel Rat) (y : Labeling) (i : ℕ) : ℤ :=
  if y.getD i false then m.quantisedPotential i else 0

/-- What a pair of nodes adds to the quantised objective. -/
def pairGain (m : PottsModel Rat) (y : Labeling) (i j : ℕ) : ℤ :=
  if y.getD i false = y.getD j false then m.quantisedWeight i j else 0

lemma quantisedScore_eq_gains (y : Labeling) :
    m.quantisedScore y = ∑ i ∈ Finset.range m.order, m.nodeGain y i
      + ∑ i ∈ Finset.range m.order, ∑ j ∈ Finset.range i, m.pairGain y i j := rfl

lemma pairGain_comm (y : Labeling) (i j : ℕ) : m.pairGain y i j = m.pairGain y j i := by
  rw [pairGain, pairGain, quantisedWeight_comm]
  simp only [eq_comm]

/-- No weight joins some nodes to others, and the potentials of all of them favour one label. -/
structure Favours (m : PottsModel Rat) (nodes : Finset ℕ) (label : Bool) : Prop where
  mem_iff : ∀ i j, m.quantisedWeight i j ≠ 0 → (i ∈ nodes ↔ j ∈ nodes)
  potential : ∀ i ∈ nodes,
    if label then 0 ≤ m.potentials.getD i 0 else m.potentials.getD i 0 ≤ 0

variable {nodes : Finset ℕ} {label : Bool} {y : Labeling}

/-- No node loses if its set is painted. -/
lemma nodeGain_le_painted (h : m.Favours nodes label) {i : ℕ} (hi : i < y.length) :
    m.nodeGain y i ≤ m.nodeGain (y.painted nodes label) i := by
  rw [nodeGain, nodeGain]
  by_cases hmem : i ∈ nodes
  · have hfavoured := h.potential i hmem
    rw [Labeling.getD_painted_of_mem hi hmem]
    cases label with
    | true =>
      rw [if_pos rfl, ← sign_nonneg_iff, ← sign_quantisedPotential, sign_nonneg_iff] at hfavoured
      rw [if_pos rfl]
      split
      · exact le_rfl
      · exact hfavoured
    | false =>
      rw [if_neg Bool.false_ne_true, ← sign_nonpos_iff, ← sign_quantisedPotential,
        sign_nonpos_iff] at hfavoured
      rw [if_neg Bool.false_ne_true]
      split
      · exact hfavoured
      · exact le_rfl
  · rw [Labeling.getD_painted_of_notMem hmem]

/-- No pair loses, either: two painted nodes agree, and no weight leads out of the set. -/
lemma pairGain_le_painted (h : m.Favours nodes label) {i j : ℕ} (hi : i < y.length)
    (hj : j < y.length) : m.pairGain y i j ≤ m.pairGain (y.painted nodes label) i j := by
  have hnonneg := quantisedWeight_nonneg (m := m) i j
  rw [pairGain, pairGain]
  by_cases hweight : m.quantisedWeight i j = 0
  · rw [hweight, ite_self, ite_self]
  · by_cases hmem : i ∈ nodes
    · rw [Labeling.getD_painted_of_mem hi hmem,
        Labeling.getD_painted_of_mem hj ((h.mem_iff i j hweight).1 hmem), if_pos rfl]
      split
      · exact le_rfl
      · exact hnonneg
    · rw [Labeling.getD_painted_of_notMem hmem,
        Labeling.getD_painted_of_notMem (mt (h.mem_iff i j hweight).2 hmem)]

/-! ## Painting an optimum -/

/-- Painting an optimum changes nothing that counts. -/
lemma gains_eq_of_isGreatestOptimum (h : m.Favours nodes label)
    (hy : Labeling.IsGreatestOptimum m.order m.quantisedScore y) :
    m.quantisedScore (y.painted nodes label) = m.quantisedScore y ∧
      (∀ i < m.order, m.nodeGain y i = m.nodeGain (y.painted nodes label) i) ∧
      ∀ i < m.order, ∀ j < i, m.pairGain y i j = m.pairGain (y.painted nodes label) i j := by
  have hnode : ∀ i ∈ Finset.range m.order,
      m.nodeGain y i ≤ m.nodeGain (y.painted nodes label) i := by
    intro i hi
    exact nodeGain_le_painted h (hy.length_eq ▸ Finset.mem_range.1 hi)
  have hpair : ∀ i ∈ Finset.range m.order, ∀ j ∈ Finset.range i,
      m.pairGain y i j ≤ m.pairGain (y.painted nodes label) i j := by
    intro i hi j hj
    rw [Finset.mem_range] at hi hj
    have hlength := hy.length_eq
    exact pairGain_le_painted h (by omega) (by omega)
  have hrow : ∀ i ∈ Finset.range m.order, ∑ j ∈ Finset.range i, m.pairGain y i j ≤
      ∑ j ∈ Finset.range i, m.pairGain (y.painted nodes label) i j :=
    fun i hi => Finset.sum_le_sum (hpair i hi)
  have hnodes := Finset.sum_le_sum hnode
  have hpairs := Finset.sum_le_sum hrow
  have hbest := hy.le (y.painted nodes label) (Labeling.length_painted.trans hy.length_eq)
  rw [quantisedScore_eq_gains, quantisedScore_eq_gains] at hbest ⊢
  -- sums that are equal although no term falls are equal term by term
  have hnodesEq := (Finset.sum_eq_sum_iff_of_le hnode).1 (by omega)
  have hrowsEq := (Finset.sum_eq_sum_iff_of_le hrow).1 (by omega)
  refine ⟨by omega, fun i hi => hnodesEq i (Finset.mem_range.2 hi), fun i hi j hj => ?_⟩
  have hi := Finset.mem_range.2 hi
  exact (Finset.sum_eq_sum_iff_of_le (hpair i hi)).1 (hrowsEq i hi) j (Finset.mem_range.2 hj)

/-- Where no potential is negative, the greatest optimum is true. -/
lemma getD_eq_true_of_favours (h : m.Favours nodes true)
    (hy : Labeling.IsGreatestOptimum m.order m.quantisedScore y) {i : ℕ} (hi : i < m.order)
    (hmem : i ∈ nodes) : y.getD i false = true := by
  obtain ⟨hscore, -, -⟩ := gains_eq_of_isGreatestOptimum h hy
  have hlength : (y.painted nodes true).length = m.order :=
    Labeling.length_painted.trans hy.length_eq
  exact hy.below _ hlength hscore i
    (Labeling.getD_painted_of_mem (hy.length_eq.symm ▸ hi) hmem)

/-- A node whose potential is negative is false. -/
lemma getD_eq_false_of_favours (h : m.Favours nodes false)
    (hy : Labeling.IsGreatestOptimum m.order m.quantisedScore y) {i : ℕ} (hi : i < m.order)
    (hmem : i ∈ nodes) (hneg : m.potentials.getD i 0 < 0) : y.getD i false = false := by
  obtain ⟨-, hnode, -⟩ := gains_eq_of_isGreatestOptimum h hy
  have hgain := hnode i hi
  have hquantised : m.quantisedPotential i < 0 := by
    rwa [← sign_eq_neg_one_iff, sign_quantisedPotential, sign_eq_neg_one_iff]
  rw [nodeGain, nodeGain, Labeling.getD_painted_of_mem (hy.length_eq.symm ▸ hi) hmem,
    if_neg Bool.false_ne_true] at hgain
  by_contra htrue
  rw [if_pos (Bool.not_eq_false _ ▸ htrue)] at hgain
  omega

/-- Two nodes of the set with a weight between them have equal labels. -/
lemma getD_eq_getD_of_favours (h : m.Favours nodes label)
    (hy : Labeling.IsGreatestOptimum m.order m.quantisedScore y) {i j : ℕ} (hi : i < m.order)
    (hj : j < m.order) (hne : i ≠ j) (hmem : i ∈ nodes) (hweight : m.quantisedWeight i j ≠ 0) :
    y.getD i false = y.getD j false := by
  obtain ⟨-, -, hpair⟩ := gains_eq_of_isGreatestOptimum h hy
  have hgain : m.pairGain y i j = m.pairGain (y.painted nodes label) i j := by
    rcases lt_or_gt_of_ne hne with hlt | hlt
    · rw [pairGain_comm y, pairGain_comm (y.painted nodes label)]
      exact hpair j hj i hlt
    · exact hpair i hi j hlt
  have hlength := hy.length_eq
  rw [pairGain, pairGain, Labeling.getD_painted_of_mem (by omega) hmem,
    Labeling.getD_painted_of_mem (by omega) ((h.mem_iff i j hweight).1 hmem), if_pos rfl] at hgain
  by_contra hdiffer
  rw [if_neg hdiffer] at hgain
  exact hweight hgain.symm

/-! ## Components -/

/-- The graph of the couplings that count: they have a weight and join different nodes. -/
def weightGraph (m : PottsModel Rat) : SimpleGraph (Fin m.order) where
  Adj i j := i ≠ j ∧ ∃ c ∈ m.couplings, c.weight ≠ 0 ∧ c.Joins i j
  symm := ⟨fun _ _ ⟨hne, c, hc, hweight, hjoins⟩ =>
    ⟨hne.symm, c, hc, hweight, Coupling.joins_comm.1 hjoins⟩⟩
  loopless := ⟨fun _ h => h.1 rfl⟩

instance (m : PottsModel Rat) : DecidableRel m.weightGraph.Adj :=
  fun i j => inferInstanceAs (Decidable (i ≠ j ∧ ∃ c ∈ m.couplings, c.weight ≠ 0 ∧ c.Joins i j))

lemma quantisedWeight_ne_zero_of_adj {i j : Fin m.order} (h : m.weightGraph.Adj i j) :
    m.quantisedWeight i j ≠ 0 := quantisedWeight_ne_zero_iff.2 h.2

/-- A weight between different places joins nodes. -/
lemma exists_adj_of_quantisedWeight (hm : m.JoinsNodes) {i j : ℕ} (hne : i ≠ j)
    (h : m.quantisedWeight i j ≠ 0) :
    ∃ (hi : i < m.order) (hj : j < m.order), m.weightGraph.Adj ⟨i, hi⟩ ⟨j, hj⟩ := by
  obtain ⟨c, hc, hweight, hjoins⟩ := quantisedWeight_ne_zero_iff.1 h
  have hends := hm c hc
  have hi : i < m.order := by
    rcases hjoins with ⟨hfirst, -⟩ | ⟨-, hsecond⟩
    · omega
    · omega
  have hj : j < m.order := by
    rcases hjoins with ⟨-, hsecond⟩ | ⟨hfirst, -⟩
    · omega
    · omega
  exact ⟨hi, hj, fun heq => hne (congrArg Fin.val heq), c, hc, hweight, hjoins⟩

open Classical in
/-- The nodes of a component, as numbers. -/
noncomputable def nodesOf (component : m.weightGraph.ConnectedComponent) : Finset ℕ :=
  (Finset.univ.filter (· ∈ component.supp)).map Fin.valEmbedding

variable {component : m.weightGraph.ConnectedComponent}

lemma mem_nodesOf_iff {i : Fin m.order} : (i : ℕ) ∈ nodesOf component ↔ i ∈ component.supp := by
  simp [nodesOf, Fin.val_inj]

lemma exists_of_mem_nodesOf {i : ℕ} (h : i ∈ nodesOf component) :
    ∃ hi : i < m.order, ⟨i, hi⟩ ∈ component.supp := by
  obtain ⟨j, hj, rfl⟩ := Finset.mem_map.1 h
  exact ⟨j.isLt, (Finset.mem_filter.1 hj).2⟩

/-- Potentials of one sign favour a label for the whole component. -/
lemma favours_nodesOf (hm : m.JoinsNodes)
    (h : ∀ i ∈ component.supp,
      if label then 0 ≤ m.potentials.get i else m.potentials.get i ≤ 0) :
    m.Favours (nodesOf component) label := by
  refine ⟨fun i j hweight => ?_, fun i hmem => ?_⟩
  · by_cases hne : i = j
    · rw [hne]
    · obtain ⟨hi, hj, hadj⟩ := exists_adj_of_quantisedWeight hm hne hweight
      exact (mem_nodesOf_iff (i := ⟨i, hi⟩)).trans
        ((component.mem_supp_congr_adj hadj).trans (mem_nodesOf_iff (i := ⟨j, hj⟩)).symm)
  · obtain ⟨hi, hsupp⟩ := exists_of_mem_nodesOf hmem
    have hget : m.potentials.getD i 0 = m.potentials.get ⟨i, hi⟩ := List.getD_eq_getElem _ _ hi
    rw [hget]
    exact h ⟨i, hi⟩ hsupp

/-- All labels of the component are equal: they are along every walk in it. -/
lemma getD_eq_getD_of_mem_supp (h : m.Favours (nodesOf component) label)
    (hy : Labeling.IsGreatestOptimum m.order m.quantisedScore y) {i j : Fin m.order}
    (hi : i ∈ component.supp) (hj : j ∈ component.supp) : y.getD i false = y.getD j false := by
  obtain ⟨walk⟩ := component.reachable_of_mem_supp hi hj
  induction walk with
  | nil => rfl
  | @cons i k j hadj walk ih =>
    have hk : k ∈ component.supp := component.mem_supp_of_adj_mem_supp hi hadj
    have hne : (i : ℕ) ≠ k := fun heq => hadj.ne (Fin.ext heq)
    exact (getD_eq_getD_of_favours h hy i.isLt k.isLt hne (mem_nodesOf_iff.2 hi)
      (quantisedWeight_ne_zero_of_adj hadj)).trans (ih hk hj)

/-- A component stays in a set of nodes that has all their neighbours. -/
lemma mem_of_mem_supp {set : Finset (Fin m.order)}
    (hclosed : ∀ i ∈ set, ∀ j, m.weightGraph.Adj i j → j ∈ set) {i j : Fin m.order} (hi : i ∈ set)
    (hj : j ∈ (m.weightGraph.connectedComponentMk i).supp) : j ∈ set := by
  obtain ⟨walk⟩ := SimpleGraph.ConnectedComponent.exact hj.symm
  induction walk with
  | nil => exact hi
  | cons hadj walk ih =>
    exact ih (hclosed _ hi _ hadj) (SimpleGraph.ConnectedComponent.sound ⟨walk⟩).symm

/-- The greatest optimum labels a component by the sign of its potentials. -/
lemma component_of_isGreatestOptimum (hm : m.JoinsNodes)
    (hy : Labeling.IsGreatestOptimum m.order m.quantisedScore y)
    (component : m.weightGraph.ConnectedComponent) :
    ((∀ i ∈ component.supp, 0 ≤ m.potentials.get i) →
      ∀ i ∈ component.supp, y[(i : ℕ)]? = some true) ∧
    ((∀ i ∈ component.supp, m.potentials.get i ≤ 0) →
      (∃ i ∈ component.supp, m.potentials.get i < 0) →
      ∀ i ∈ component.supp, y[(i : ℕ)]? = some false) := by
  have hget : ∀ i : Fin m.order, y[(i : ℕ)]? = some (y.getD i false) := by
    intro i
    have hi : (i : ℕ) < y.length := hy.length_eq.symm ▸ i.isLt
    rw [List.getD_eq_getElem _ _ hi, List.getElem?_eq_getElem hi]
  constructor
  · intro hnonneg i hi
    have hfavours : m.Favours (nodesOf component) true := favours_nodesOf hm hnonneg
    rw [hget, getD_eq_true_of_favours hfavours hy i.isLt (mem_nodesOf_iff.2 hi)]
  · rintro hnonpos ⟨k, hk, hneg⟩ i hi
    have hfavours : m.Favours (nodesOf component) false := favours_nodesOf hm hnonpos
    have hpotential : m.potentials.getD k 0 < 0 := by
      rwa [List.getD_eq_getElem _ _ k.isLt]
    have hlabel := getD_eq_false_of_favours hfavours hy k.isLt (mem_nodesOf_iff.2 hk) hpotential
    rw [hget, getD_eq_getD_of_mem_supp hfavours hy hi hk, hlabel]

/-- The minimum cut labels a component true if none of its potentials is negative, and false if none
is positive and some is negative.  In particular an isolated node is true if and only if its
potential is not negative. -/
theorem minCutLabeling_component (m : PottsModel Rat) (hm : m.JoinsNodes) :
    ∃ y, m.minCutLabeling = .ok y ∧ y.length = m.order ∧
      (∀ component : m.weightGraph.ConnectedComponent,
        ((∀ i ∈ component.supp, 0 ≤ m.potentials.get i) →
          ∀ i ∈ component.supp, y[(i : ℕ)]? = some true) ∧
        ((∀ i ∈ component.supp, m.potentials.get i ≤ 0) →
          (∃ i ∈ component.supp, m.potentials.get i < 0) →
          ∀ i ∈ component.supp, y[(i : ℕ)]? = some false)) ∧
      ∀ i, m.weightGraph.IsIsolated i → (y[(i : ℕ)]? = some true ↔ 0 ≤ m.potentials.get i) := by
  obtain ⟨y, hfound, hy⟩ := minCutLabeling_eq hm
  have hcomponent := component_of_isGreatestOptimum hm hy
  refine ⟨y, hfound, hy.length_eq, hcomponent, fun i hisolated => ?_⟩
  obtain ⟨htrue, hfalse⟩ := hcomponent (m.weightGraph.connectedComponentMk i)
  have honly : ∀ j ∈ (m.weightGraph.connectedComponentMk i).supp, j = i := by
    intro j hj
    refine Finset.mem_singleton.1 (mem_of_mem_supp ?_ (Finset.mem_singleton_self i) hj)
    intro k hk l hadj
    rw [Finset.mem_singleton.1 hk] at hadj
    exact absurd hadj (hisolated l)
  constructor
  · intro hlabel
    by_contra hneg
    have hneg := not_le.1 hneg
    have hother := hfalse (fun j hj => honly j hj ▸ hneg.le) ⟨i, rfl, hneg⟩ i rfl
    rw [hlabel] at hother
    cases hother
  · exact fun hnonneg => htrue (fun j hj => honly j hj ▸ hnonneg) i rfl

/-- A huge potential beside small ones: one of an isolated node, one in a pair that a repeated
coupling joins, and one in a pair with a loop. -/
def unequalModel : PottsModel Rat where
  potentials := [10 ^ 30, 1 / 10 ^ 30, -1 / 10 ^ 30, 0, 0, 1 / 7]
  couplings := [⟨2, 3, 1 / 10 ^ 40⟩, ⟨3, 2, 10 ^ 20⟩, ⟨5, 4, 1⟩, ⟨5, 5, 3⟩, ⟨0, 3, 0⟩]
  not_hasNegative := by
    rw [HasNegative, Scalar.minimum?_any_lt_zero_iff]
    norm_num

theorem minCutLabeling_component_unequalModel :
    unequalModel.JoinsNodes ∧
      ∃ y, unequalModel.minCutLabeling = .ok y ∧ y[1]? = some true ∧ y[3]? = some false ∧
        y[4]? = some true := by
  have hm : unequalModel.JoinsNodes := by decide
  let isolated : Fin unequalModel.order := ⟨1, by decide⟩
  let negative : Fin unequalModel.order := ⟨2, by decide⟩
  let tied : Fin unequalModel.order := ⟨3, by decide⟩
  let zero : Fin unequalModel.order := ⟨4, by decide⟩
  let positive : Fin unequalModel.order := ⟨5, by decide⟩
  have hisolated : unequalModel.weightGraph.IsIsolated isolated := by
    unfold SimpleGraph.IsIsolated
    decide +kernel
  have hadj : unequalModel.weightGraph.Adj negative tied := by decide +kernel
  have hnegative : unequalModel.potentials.get negative < 0 := by decide +kernel
  obtain ⟨y, hfound, -, hcomponent, honly⟩ := minCutLabeling_component unequalModel hm
  refine ⟨hm, y, hfound, (honly isolated hisolated).2 (by decide +kernel), ?_, ?_⟩
  · -- one potential is negative, and the other one is zero
    refine (hcomponent _).2 (fun i hi => ?_)
      ⟨negative, SimpleGraph.ConnectedComponent.sound hadj.reachable, hnegative⟩ tied rfl
    have hmem : i ∈ ({negative, tied} : Finset _) :=
      mem_of_mem_supp (by decide +kernel) (by decide) hi
    have hi : i = negative ∨ i = tied := by simpa using hmem
    rcases hi with rfl | rfl
    · exact hnegative.le
    · decide +kernel
  · refine (hcomponent _).1 (fun i hi => ?_) zero rfl
    have hmem : i ∈ ({zero, positive} : Finset _) :=
      mem_of_mem_supp (by decide +kernel) (by decide) hi
    have hi : i = zero ∨ i = positive := by simpa using hmem
    rcases hi with rfl | rfl
    · decide +kernel
    · decide +kernel

end PottsModel

end PottsOracle
