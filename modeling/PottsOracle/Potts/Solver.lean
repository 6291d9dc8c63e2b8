import PottsOracle.Potts.Network

/-!
# Labelings of maximal score

Two solvers for the attractive Potts model.  The minimum cut is exact on whole capacities and takes
the largest labeling among the best ones; the exhaustive search takes the first of the best ones in
the order in which false comes before true.
-/

namespace PottsOracle

/-- A way to find a labeling. -/
inductive Solver where
  | minCut
  | exhaustive
  deriving DecidableEq, Repr

/-- The name of a solver. -/
def Solver.name : Solver → String
  | .minCut => "mincut"
  | .exhaustive => "exhaustive"

/-- Why a solver finds no labeling. -/
inductive SolverError where
  /-- A scaled capacity is no number or infinite. -/
  | capacity (cause : Unroundable)
  /-- A coupling has a place without a label. -/
  | missingLabel
  /-- The largest capacity is infinite, so that everything is scaled by zero. -/
  | zeroScale
  /-- There are too many nodes for an exhaustive search. -/
  | tooManyNodes (nodes : Nat)
  deriving DecidableEq, Repr

/-- The most nodes that are searched exhaustively. -/
def maxSearchedNodes : Nat := 20

/-- The message about a solver, if the error has one. -/
def SolverError.message? : SolverError → Option String
  | capacity _ | missingLabel | zeroScale => none
  | tooManyNodes nodes =>
    some s!"Exhaustive Potts search supports at most {maxSearchedNodes} nodes, got {nodes}"

variable {K : Type} [Scalar K]

/-! ## Exhaustive search -/

/-- All labelings of `n` nodes; false comes before true, and earlier nodes count more. -/
def allLabelings : Nat → List Labeling
  | 0 => [[]]
  | n + 1 => (allLabelings n).map (false :: ·) ++ (allLabelings n).map (true :: ·)

/-- The first of a best labeling so far and some others that no later one exceeds, unless one of
them has no score. -/
def firstBest (score? : Labeling → Option K) (best : Labeling) (bestScore : K) :
    List Labeling → Option Labeling
  | [] => some best
  | y :: rest => do
    let score ← score? y
    if Scalar.lt bestScore score then firstBest score? y score rest
    else firstBest score? best bestScore rest

/-- The first labeling of `n` nodes that no other one exceeds. -/
def searchAll (n : Nat) (score? : Labeling → Option K) : Except SolverError Labeling :=
  if maxSearchedNodes < n then .error (.tooManyNodes n)
  else
    let start := List.replicate n false
    let best := do firstBest score? start (← score? start) (allLabelings n)
    best.elim (.error .missingLabel) .ok

namespace PottsModel

/-! ## Minimum cut -/

/-- The labeling of a cut.  Stray places on the source's side that are negative are labels from the
end of the nodes. -/
def labelingOf (m : PottsModel K) (stray : List Int) (side : List Bool) :
    Except SolverError Labeling :=
  let marked := (stray.zip (side.drop (m.order + 2))).filterMap fun (place, onSide) =>
    if onSide ∧ place < 0 then some (place + m.order) else none
  if marked.any (· < 0) then .error .missingLabel
  else .ok ((side.take m.order).zipIdx.map fun (label, i) => label || marked.contains (i : Int))

/-- The labeling of the largest minimum cut.  If there is no capacity at all, every node is true.
A cut counts only if its capacity can be scaled back. -/
def minCutLabeling (m : PottsModel K) : Except SolverError Labeling :=
  if m.order = 0 then .ok []
  else if Scalar.eq m.maxCapacity 0 then .ok (List.replicate m.order true)
  else do
    let arcs ← m.arcs.mapError .capacity
    let y ← m.labelingOf (m.strayPlaces arcs) (m.network arcs).sourceSide
    if Scalar.eq m.scale 0 then .error .zeroScale else .ok y

/-! ## Both solvers -/

/-- The first labeling that no other one exceeds. -/
def exhaustiveLabeling (m : PottsModel K) : Except SolverError Labeling :=
  searchAll m.order m.score?

/-- The labeling that a solver finds. -/
def solve (m : PottsModel K) : Solver → Except SolverError Labeling
  | .minCut => m.minCutLabeling
  | .exhaustive => m.exhaustiveLabeling

end PottsModel

end PottsOracle
