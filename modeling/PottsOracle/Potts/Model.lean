import PottsOracle.Decimal.Style
import PottsOracle.Labeling
import PottsOracle.Place

/-!
# The attractive Potts model

A model has a potential for every node, which counts if the node is true, and couplings, whose
weights count if their two endpoints have equal labels.  No weight may be negative.  Couplings may
be parallel, and may join a node to itself.
-/

namespace PottsOracle

/-- A weight that rewards equal labels at two places.  A place that is negative counts from the end
of the nodes. -/
structure Coupling (K : Type) where
  first : Int
  second : Int
  weight : K
  deriving DecidableEq, Repr

/-- Why a Potts model cannot be built. -/
inductive PottsError (K : Type) where
  | countMismatch (pairs weights : Nat)
  | negativeWeight (minimum : K)
  deriving DecidableEq, Repr

/-- The message about a Potts model. -/
def PottsError.message : PottsError Float → Text
  | countMismatch pairs weights => Text.ofString s!"Got {pairs} edges but {weights} weights"
  | negativeWeight minimum =>
    Text.ofString "Potts edge weights must be non-negative, got minimum "
      ++ Decimal.write Decimal.plain minimum

/-- The least of some weights is negative. -/
def HasNegative {K : Type} [Scalar K] (weights : List K) : Prop :=
  (Scalar.minimum? weights).any (Scalar.lt · 0) = true

instance {K : Type} [Scalar K] (weights : List K) : Decidable (HasNegative weights) :=
  inferInstanceAs (Decidable (_ = _))

/-- Potentials and couplings. -/
structure PottsModel (K : Type) [Scalar K] where
  /-- The potential of every node. -/
  potentials : List K
  couplings : List (Coupling K)
  not_hasNegative : ¬ HasNegative (couplings.map (·.weight))

namespace PottsModel

variable {K : Type} [Scalar K]

/-- Pairs of places with a weight each as couplings. -/
def couplingsOf (pairs : List (Int × Int)) (weights : List K) : List (Coupling K) :=
  pairs.zipWith (fun (i, j) w => ⟨i, j, w⟩) weights

/-- The model of potentials, pairs of places and a weight for every pair. -/
def ofLists (potentials : List K) (pairs : List (Int × Int)) (weights : List K) :
    Except (PottsError K) (PottsModel K) :=
  if pairs.length ≠ weights.length then .error (.countMismatch pairs.length weights.length)
  else if h : HasNegative ((couplingsOf pairs weights).map (·.weight)) then
    .error (.negativeWeight ((Scalar.minimum? weights).getD 0))
  else .ok ⟨potentials, couplingsOf pairs weights, h⟩

/-- The number of nodes. -/
def order (m : PottsModel K) : Nat := m.potentials.length

/-- The entries of a list that are marked. -/
def select (marks : List Bool) (entries : List K) : List K :=
  (marks.zip entries).filterMap fun (mark, x) => if mark then some x else none

/-- Whether the two ends of a coupling have equal labels, if both have one. -/
def agrees? (y : Labeling) (c : Coupling K) : Option Bool := do
  return (← Place.get? y c.first) == (← Place.get? y c.second)

/-- The objective: the potentials of the true nodes and the weights of the couplings between equal
labels.  There must be a label for every place in use and for every node; without couplings the
empty labeling will do as well, and counts as all false. -/
def score? (m : PottsModel K) (y : Labeling) : Option K := do
  let agreeing ← m.couplings.mapM (agrees? y)
  if y.length = m.order ∨ y = [] then
    some (Scalar.total (select y m.potentials)
      + Scalar.total (select agreeing (m.couplings.map (·.weight))))
  else none

end PottsModel

end PottsOracle
