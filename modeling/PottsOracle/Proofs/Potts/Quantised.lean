import PottsOracle.Proofs.Potts.Score

/-!
# The quantised objective

The minimum cut works on whole numbers of units.  A size becomes the nearest whole number of units,
but never less than one; a potential keeps its sign, and what is zero stays zero.  Between two nodes
only one weight counts, that of the last coupling that joins them and has one.

`PottsModel.quantisedScore` is the objective with these whole numbers in the place of potentials and
weights.  It does not mention a network.
-/

namespace PottsOracle

/-- A coupling joins two nodes, in one direction or the other. -/
def Coupling.Joins {K : Type} (c : Coupling K) (i j : Nat) : Prop :=
  (c.first = i ∧ c.second = j) ∨ (c.first = j ∧ c.second = i)

instance {K : Type} (c : Coupling K) (i j : Nat) : Decidable (c.Joins i j) :=
  inferInstanceAs (Decidable (_ ∨ _))

lemma Coupling.joins_comm {K : Type} {c : Coupling K} {i j : Nat} :
    c.Joins i j ↔ c.Joins j i :=
  or_comm

namespace PottsModel

variable (m : PottsModel Rat)

/-- The whole number of units for a positive size. -/
def units (x : Rat) : ℤ := max 1 (halfEven (x * m.scale).num (x * m.scale).den)

/-- The potential of a node in units. -/
def quantisedPotential (i : Nat) : ℤ :=
  let u := m.potentials.getD i 0
  if u = 0 then 0 else (SignType.sign u : ℤ) * m.units |u|

/-- The weight that counts between two nodes: that of the last coupling that joins them and has a
weight. -/
def lastWeight? (i j : Nat) : Option Rat :=
  (m.couplings.reverse.find? fun c => c.weight ≠ 0 ∧ c.Joins i j).map (·.weight)

/-- The weight between two nodes in units. -/
def quantisedWeight (i j : Nat) : ℤ := (m.lastWeight? i j).elim 0 m.units

/-- The objective in units: the potentials of the true nodes and the weights between the pairs of
different nodes with equal labels. -/
def quantisedScore (y : Labeling) : ℤ :=
  ∑ i ∈ Finset.range m.order, (if y.getD i false then m.quantisedPotential i else 0)
    + ∑ i ∈ Finset.range m.order, ∑ j ∈ Finset.range i,
        if y.getD i false = y.getD j false then m.quantisedWeight i j else 0

variable {m}

lemma one_le_units (x : Rat) : 1 ≤ m.units x := le_max_left _ _

lemma natCast_toNat_units (x : Rat) : ((m.units x).toNat : ℤ) = m.units x :=
  Int.toNat_of_nonneg (le_trans zero_le_one (one_le_units x))

lemma quantisedPotential_eq {i : Nat} {u : Rat} (h : m.potentials[i]? = some u) :
    m.quantisedPotential i =
      if u = 0 then 0 else (SignType.sign u : ℤ) * m.units |u| := by
  rw [quantisedPotential, List.getD_eq_getElem?_getD, h]
  rfl

lemma quantisedWeight_comm (i j : Nat) : m.quantisedWeight i j = m.quantisedWeight j i := by
  unfold quantisedWeight lastWeight?
  simp only [Coupling.joins_comm (i := i) (j := j)]

end PottsModel

end PottsOracle
