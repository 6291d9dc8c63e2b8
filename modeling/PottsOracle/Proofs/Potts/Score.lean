import PottsOracle.Proofs.Arith.Exact
import PottsOracle.Proofs.Traverse
import PottsOracle.Potts.Solver

/-!
# Scores as sums

Over the rationals, and when all couplings join nodes, the objective of a Potts model is a sum over
nodes and a sum over couplings: `PottsModel.score?_eq` says that `PottsModel.score?` is
`PottsModel.exactScore`.
-/

namespace PottsOracle

namespace PottsModel

/-- Both places of every coupling are nodes. -/
def JoinsNodes {K : Type} [Scalar K] (m : PottsModel K) : Prop :=
  ∀ c ∈ m.couplings, (0 ≤ c.first ∧ c.first < m.order) ∧ 0 ≤ c.second ∧ c.second < m.order

instance {K : Type} [Scalar K] (m : PottsModel K) : Decidable m.JoinsNodes :=
  inferInstanceAs (Decidable (∀ _ ∈ _, _))

/-- The two nodes of a coupling have equal labels. -/
def Agree {K : Type} (y : Labeling) (c : Coupling K) : Prop :=
  y.getD c.first.toNat false = y.getD c.second.toNat false

instance {K : Type} (y : Labeling) (c : Coupling K) : Decidable (Agree y c) :=
  inferInstanceAs (Decidable (_ = _))

/-- The objective: the potentials of the true nodes and the weights of the couplings between nodes
with equal labels. -/
def exactScore (m : PottsModel Rat) (y : Labeling) : Rat :=
  ∑ i ∈ Finset.range m.order, (if y.getD i false then m.potentials.getD i 0 else 0)
    + (m.couplings.map fun c => if Agree y c then c.weight else 0).sum

/-- No coupling has a negative weight. -/
lemma weight_nonneg (m : PottsModel Rat) {c : Coupling Rat} (hc : c ∈ m.couplings) :
    0 ≤ c.weight := by
  by_contra hneg
  refine m.not_hasNegative ?_
  rw [HasNegative, Scalar.minimum?_any_lt_zero_iff]
  exact ⟨c.weight, List.mem_map.2 ⟨c, hc, rfl⟩, not_le.1 hneg⟩

/-! ## Reading the objective -/

lemma total_select (marks : List Bool) (entries : List Rat) :
    Scalar.total (select marks entries) =
      (List.zipWith (fun mark x => if mark then x else 0) marks entries).sum := by
  rw [Scalar.total_rat]
  induction marks generalizing entries with
  | nil => simp [select]
  | cons mark marks ih =>
    cases entries with
    | nil => simp [select]
    | cons x entries =>
      have hrest := ih entries
      unfold select at hrest ⊢
      cases mark with
      | false => simpa using hrest
      | true => simpa using hrest

/-- A sum over the entries of two lists, as a sum over their places. -/
lemma sum_zipWith_eq_sum_range {marks : List Bool} {entries : List Rat}
    (h : marks.length = entries.length) :
    (List.zipWith (fun mark x => if mark then x else 0) marks entries).sum =
      ∑ i ∈ Finset.range entries.length,
        if marks.getD i false then entries.getD i 0 else 0 := by
  induction marks generalizing entries with
  | nil =>
    have : entries = [] := List.length_eq_zero_iff.1 (by simpa using h.symm)
    simp [this]
  | cons mark marks ih =>
    cases entries with
    | nil => simp at h
    | cons x entries =>
      rw [List.zipWith_cons_cons, List.sum_cons, List.length_cons, Finset.sum_range_succ',
        ih (by simpa using h), add_comm]
      simp

lemma get?_eq_getD {y : Labeling} {place : ℤ} (h0 : 0 ≤ place) (h : place < y.length) :
    Place.get? y place = some (y.getD place.toNat false) := by
  have hlt : place.toNat < y.length := by omega
  rw [Place.get?, if_pos h0, List.getD_eq_getElem?_getD, List.getElem?_eq_getElem hlt]
  rfl

lemma agrees?_eq {m : PottsModel Rat} (h : m.JoinsNodes) {y : Labeling} (hy : y.length = m.order)
    {c : Coupling Rat} (hc : c ∈ m.couplings) : agrees? y c = some (decide (Agree y c)) := by
  obtain ⟨⟨hfirst0, hfirst⟩, hsecond0, hsecond⟩ := h c hc
  rw [← hy] at hfirst hsecond
  rw [agrees?, get?_eq_getD hfirst0 hfirst, get?_eq_getD hsecond0 hsecond]
  rfl

/-- Every labeling of the nodes has a score. -/
theorem score?_eq {m : PottsModel Rat} (h : m.JoinsNodes) {y : Labeling}
    (hy : y.length = m.order) : m.score? y = some (m.exactScore y) := by
  have hagreeing : m.couplings.mapM (agrees? y) =
      some (m.couplings.map fun c => decide (Agree y c)) :=
    mapM_eq_pure_map fun c hc => agrees?_eq h hy hc
  have hcouplings : List.zipWith (fun (mark : Bool) x => if mark then x else 0)
      (m.couplings.map fun c => decide (Agree y c)) (m.couplings.map (·.weight)) =
      m.couplings.map fun c => if Agree y c then c.weight else 0 := by
    rw [List.zipWith_map, List.zipWith_self]
    simp
  rw [score?, hagreeing]
  simp only [Option.bind_eq_bind, Option.bind_some, hy, true_or, if_true]
  rw [total_select, total_select, hcouplings, sum_zipWith_eq_sum_range (by rw [hy]; rfl)]
  rfl

end PottsModel

end PottsOracle
