import PottsOracle.Input.Form
import PottsOracle.Input.Stretch
import PottsOracle.Synthetic.Generator

/-!
# Edges with probabilities as they are given

Usually the two probabilities of edges are numbers.  They can also be blocks, of which every pair of
nodes has an entry of its own, and they can hold what is no number, as long as no pair of nodes
chooses it.
-/

namespace PottsOracle

namespace Synthetic

/-- A table with a row for every node, as a block. -/
def tableOf {α : Type} (rows : List (List α)) : Block α :=
  ⟨[rows.length, rows.length], rows.flatten⟩

/-- For every place of a common shape whether its draw is below its probability, with the shape.
Where labels are equal the first probability is chosen, elsewhere the second. -/
def drawMarks (labels : Labeling) (pSame pDiff : Value) (draws : List (List Float)) :
    Except InputError (List Nat × List Bool) := do
  let same ← pSame.toBlock .ok
  let diff ← pDiff.toBlock .ok
  let equal := tableOf (labels.map fun a => labels.map (a == ·))
  let shape ← ((Block.commonShape? same.shape diff.shape).bind
    (Block.commonShape? equal.shape)).elim (.error .malformed) .ok
  let form := NumberForm.together pSame pDiff
  if form = .text then .error .wrongType
  else
    let same := same.stretched shape
    let diff := diff.stretched shape
    if form ≠ .asGiven then (same ++ diff).forM fun v => (form.read v).map fun _ => ()
    let chosen := ((equal.stretched shape).zip (same.zip diff)).map fun (isEqual, p, q) =>
      if isEqual then p else q
    let marks ← (((tableOf draws).stretched shape).zip chosen).mapM fun (u, p) => form.isBelow u p
    .ok (shape, marks)

/-- The pairs of nodes whose draw is below their probability, with probabilities that are given.
The places above the diagonal of a table are pairs; without a table there are no pairs. -/
def sampleEdgesGiven (labels : Labeling) (pSame pDiff : Value) (draws : List (List Float)) :
    Except InputError (List (Nat × Nat)) :=
  match Number.ofValue? pSame, Number.ofValue? pDiff with
  | some _, some _ => do
    let form := NumberForm.together pSame pDiff
    .ok (sampleEdges labels (← form.read pSame) (← form.read pDiff) draws)
  | _, _ => do
    match ← drawMarks labels pSame pDiff draws with
    | ([_, columns], marks) => .ok (marks.zipIdx.filterMap fun (mark, place) =>
        let (i, j) := (place / columns, place % columns)
        if mark ∧ i < j then some (i, j) else none)
    | _ => .error .malformed

/-- Probabilities that are given as floats are used as they are. -/
theorem sampleEdgesGiven_float (labels : Labeling) (p q : Float) (draws : List (List Float)) :
    sampleEdgesGiven labels (.float p) (.float q) draws = .ok (sampleEdges labels p q draws) :=
  rfl

end Synthetic

end PottsOracle
