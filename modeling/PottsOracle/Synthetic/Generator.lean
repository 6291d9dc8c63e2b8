import PottsOracle.Dataset.Sample
import PottsOracle.Settings.Basic
import PottsOracle.Synthetic.Draws

/-!
# Synthetic data

The labels of a synthetic graph are drawn evenly.  The features of a node are noise, shifted by one
in the first entry if the node is true and in the second if it is false.  Every pair of nodes is an
edge with a probability that depends on whether their labels are equal.  The features of an edge are
a one and then the sizes of noise, so that none is negative.
-/

namespace PottsOracle

/-- What synthetic data look like. -/
structure Generator (K : Type) where
  samples : Nat
  nodes : Nat
  nodeDims : Nat
  edgeDims : Nat
  pSame : K
  pDiff : K
  noise : K
  kind : FeatureKind

/-- The generator of some settings.  Settings may hold floats where counts are due, truth values
where lengths are, and integers that no float comes near. -/
def DataSettings.generator (s : DataSettings) : Except InputError (Generator Float) := do
  let samples ← s.samples.count
  let nodes ← s.nodes.length
  let nodeDims ← s.nodeDims.length
  let noise ← s.noise.toFloat
  let pSame ← s.pSame.toFloat
  let pDiff ← s.pDiff.toFloat
  let edgeDims ← s.edgeDims.length
  .ok ⟨samples, nodes, nodeDims, edgeDims, pSame, pDiff, noise, s.representation⟩

namespace Synthetic

variable {K : Type} [Scalar K]

/-- The pairs of nodes whose draw is below their probability, in order.  There is a row of draws for
every node; draws at or below the diagonal do not matter. -/
def sampleEdges (labels : Labeling) (pSame pDiff : K) (draws : List (List K)) : List (Nat × Nat) :=
  (labels.zip draws).zipIdx.flatMap fun ((a, row), i) =>
    (labels.zip row).zipIdx.filterMap fun ((b, u), j) =>
      if i < j ∧ Scalar.lt u (if a = b then pSame else pDiff) then some (i, j) else none

/-- Labels from draws: those below one half are true. -/
def labelsOf (draws : List K) : Labeling := draws.map fun u => Scalar.lt u (1 / Scalar.ofNat 2)

/-- The entries of a node vector. -/
def nodeEntries (noise : K) (label : Bool) (draws : List K) : List K :=
  (draws.map (noise * ·)).modify (if label then 0 else 1) (· + 1)

/-- The entries of an edge vector. -/
def edgeEntries (noise : K) (draws : List K) : List K :=
  (draws.map fun z => Scalar.abs (noise * z)).set 0 1

/-- Entries as a vector; a sparse one leaves zeros out. -/
def vectorOf (kind : FeatureKind) (entries : List K) : FeatureVector K :=
  match kind with
  | .dense => .dense entries
  | .sparse => .sparse (FeatureVector.nonzeroTerms entries)

/-- Pairs of nodes as pairs of integers. -/
def integerPairs (pairs : List (Nat × Nat)) : List (Int × Int) :=
  pairs.map fun (i, j) => ((i : Int), (j : Int))

/-- One sample, and the draws that are left. -/
def sample (g : Generator K) (draws : Draws K) : Except GraphError (Sample K × Draws K) := do
  let labels := labelsOf (draws.uniform.next g.nodes)
  let uniform := draws.uniform.skip g.nodes
  let rows := draws.normal.nextRows g.nodes g.nodeDims
  let normal := draws.normal.skip (g.nodes * g.nodeDims)
  let edges := sampleEdges labels g.pSame g.pDiff (uniform.nextRows g.nodes g.nodes)
  let edgeRows := normal.nextRows edges.length g.edgeDims
  let nodes := labels.zipWith (fun y row => vectorOf g.kind (nodeEntries g.noise y row)) rows
  let edgeVectors := edgeRows.map fun row => vectorOf g.kind (edgeEntries g.noise row)
  let graph ← LabeledGraph.ofEdges g.kind nodes (integerPairs edges) edgeVectors
  .ok (⟨graph, labels⟩, {
    uniform := uniform.skip (g.nodes * g.nodes)
    normal := normal.skip (edges.length * g.edgeDims) })

/-- A number of samples, one after the other. -/
def samples (g : Generator K) : Nat → Draws K → Except GraphError (List (Sample K))
  | 0, _ => .ok []
  | count + 1, draws => do
    let (first, draws) ← sample g draws
    .ok (first :: (← samples g count draws))

/-- All samples of a generator. -/
def generate (g : Generator K) (draws : Draws K) : Except GraphError (List (Sample K)) :=
  samples g g.samples draws

end Synthetic

end PottsOracle
