import PottsOracle.Graph.Given
import PottsOracle.Potts.Solver

/-!
# Potts models and labelings as they are given

Potentials and weights are given as blocks.  If each has a single extent they make a Potts model.
Otherwise a node has a whole row of potentials, or a pair of places a whole row of weights, and a
row counts with all its entries.  Such rows have scores, and so can be searched, but they are no
capacities.

Labelings to be scored are given as blocks, too.  One with more extents than the usual one marks
single entries of the rows.
-/

namespace PottsOracle

/-- Why a given Potts model cannot be used. -/
inductive GivenPottsError where
  | input (cause : InputError)
  | potts (cause : PottsError Float)
  deriving Repr

/-- Why a given labeling has no score. -/
inductive ScoreError where
  | input (cause : InputError)
  /-- There is no label for some node or place, or there are labels for no node. -/
  | labels
  deriving DecidableEq, Repr

/-- Why a solver finds no labeling of a given model. -/
inductive GivenSolverError where
  | input (cause : InputError)
  | solver (cause : SolverError)
  deriving DecidableEq, Repr

/-- The message about a solver, if the error has one. -/
def GivenSolverError.message? : GivenSolverError → Option String
  | input _ => none
  | solver cause => cause.message?

/-- A Potts model as it is given. -/
structure GivenPotts where
  potentials : Block Float
  pairs : List (Int × Int)
  weights : Block Float
  /-- The model in which every row is one number: its only entry, or else the largest one.  The
  largest capacity is the same. -/
  peaks : PottsModel Float

namespace GivenPotts

/-- A block is a plain list. -/
def IsList {α : Type} (b : Block α) : Prop := b.shape.length = 1

instance {α : Type} (b : Block α) : Decidable (IsList b) := inferInstanceAs (Decidable (_ = _))

/-- The largest entry of every row; the entries themselves if the block is a list. -/
def peaksOf (b : Block Float) : List Float :=
  if IsList b then b.entries else b.rows.map fun row => (Scalar.maximum? row).getD 0

/-- The model of given potentials, pairs of places and weights.  Weights are checked before the
nodes are counted. -/
def ofBlocks (potentials : Block Float) (pairs : List (Int × Int)) (weights : Block Float) :
    Except GivenPottsError GivenPotts := do
  let count ← weights.shape.head?.elim (.error (.input .wrongType)) .ok
  if pairs.length ≠ count then .error (.potts (.countMismatch pairs.length count))
  else if count ≠ 0 ∧ weights.entries = [] then .error (.input .malformed)
  else if HasNegative weights.entries then
    .error (.potts (.negativeWeight ((Scalar.minimum? weights.entries).getD 0)))
  else if potentials.shape = [] then .error (.input .wrongType)
  else
    let sizes := if IsList potentials then potentials else potentials.map Scalar.abs
    let peaks ← (PottsModel.ofLists (peaksOf sizes) pairs (peaksOf weights)).mapError .potts
    .ok ⟨potentials, pairs, weights, peaks⟩

/-- The model of potentials, pairs and weights that are given as values. -/
def read (potentials pairs weights : Value) : Except GivenPottsError GivenPotts := do
  let potentials ← potentials.toFloats.mapError .input
  let pairs ← (GivenGraph.readPairs pairs).mapError .input
  let weights ← weights.toFloats.mapError .input
  ofBlocks potentials pairs weights

/-- The number of nodes. -/
def order (m : GivenPotts) : Nat := m.peaks.order

/-! ## Scores -/

/-- For every pair of places, where its two rows of labels agree.  Without pairs no label is looked
at. -/
def agreeing? (m : GivenPotts) (labels : Block Bool) : Option (Block Bool) :=
  match m.pairs, labels.shape with
  | [], _ => some ⟨[0], []⟩
  | _ :: _, [] => none
  | _ :: _, _ :: inner => do
    let rows := labels.rows
    let marks ← m.pairs.mapM fun (i, j) => do
      return List.zipWith (· == ·) (← Place.get? rows i) (← Place.get? rows j)
    return ⟨m.pairs.length :: inner, marks.flatten⟩

/-- The objective: the potentials that are marked and the weights where labels agree. -/
def score? (m : GivenPotts) (labels : Block Bool) : Option Float := do
  let agreeing ← m.agreeing? labels
  let potentials ← m.potentials.select? labels
  let weights ← m.weights.select? agreeing
  return Scalar.total potentials + Scalar.total weights

/-- The objective of a labeling. -/
def labelingScore? (m : GivenPotts) (y : Labeling) : Option Float := m.score? ⟨[y.length], y⟩

/-- The score of a given labeling. -/
def scoreGiven (m : GivenPotts) (labels : Value) : Except ScoreError Float := do
  let labels ← labels.toMarks.mapError .input
  (m.score? labels).elim (.error .labels) .ok

/-! ## Solvers -/

/-- All pairs join a place to itself. -/
def AllLoops (m : GivenPotts) : Prop := ∀ p ∈ m.pairs, p.1 = p.2

instance (m : GivenPotts) : Decidable m.AllLoops := inferInstanceAs (Decidable (∀ _ ∈ _, _))

/-- The labeling of the largest minimum cut.  A row is no capacity, unless there is no capacity at
all or the row belongs to a place alone. -/
def minCutLabeling (m : GivenPotts) : Except GivenSolverError Labeling :=
  if m.order ≠ 0 ∧ m.potentials.entries = [] then .error (.input .malformed)
  else if m.order = 0 ∨ Scalar.eq m.peaks.maxCapacity 0
      ∨ IsList m.potentials ∧ (IsList m.weights ∨ m.AllLoops) then
    m.peaks.minCutLabeling.mapError .solver
  else if IsList m.potentials then do
    let _ ← m.peaks.allNodeArcs.mapError fun e => .solver (.capacity e)
    .error (.input .wrongType)
  else .error (.input .wrongType)

/-- The labeling that a solver finds. -/
def solve (m : GivenPotts) : Solver → Except GivenSolverError Labeling
  | .minCut => m.minCutLabeling
  | .exhaustive =>
    (if IsList m.potentials ∧ IsList m.weights then m.peaks.exhaustiveLabeling
      else searchAll m.order m.labelingScore?).mapError .solver

end GivenPotts

end PottsOracle
