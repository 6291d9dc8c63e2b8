import PottsOracle.Graph.JointVector
import PottsOracle.Potts.Solver

/-!
# The separation oracle

Given weights and the true labels of a graph, the oracle finds the labeling for which score and loss
together are largest.  The loss counts wrong labels, so it goes into the potentials: a node whose
true label is true loses one if it is labeled true, any other node gains one.  What is left is one
Potts model, in which a label has as its potential the score of its node, and a pair of equal labels
the score of its edge.
-/

namespace PottsOracle

/-- The layout of the weights and the solver in use. -/
structure SeparationOracle where
  layout : FeatureLayout
  solver : Solver
  deriving DecidableEq, Repr

/-- Why the oracle has no answer. -/
inductive OracleError (K : Type) where
  | joint (cause : JointError)
  | label (cause : LabelError)
  /-- There are not as many true labels as nodes. -/
  | truthCount (labels nodes : Nat)
  | potts (cause : PottsError K)
  | solver (cause : SolverError)
  deriving DecidableEq, Repr

/-- The message about the oracle, if the error has one. -/
def OracleError.message? : OracleError Float → Option Text
  | joint cause => cause.message?.map Text.ofString
  | label cause => cause.message?.map Text.ofString
  | truthCount labels nodes =>
    some (Text.ofString
      s!"Truth labeling has {labels} entries for a graph with {nodes} nodes")
  | potts cause => some cause.message
  | solver cause => cause.message?.map Text.ofString

/-- A violated constraint: the loss of a labeling and its joint feature vector. -/
structure Constraint (K : Type) where
  loss : K
  vector : FeatureVector K
  deriving DecidableEq, Repr

namespace SeparationOracle

variable {K : Type} [Scalar K]

/-- The scores of vectors under the weights of their block. -/
def scores (layout : FeatureLayout) (block : FeatureBlock) (weights : List K)
    (vectors : List (FeatureVector K)) : Except (OracleError K) (List K) :=
  (vectors.mapM (layout.blockScore block weights)).mapError .joint

/-- The scores of all nodes.  The weights have to fit the layout. -/
def nodeScores (layout : FeatureLayout) (g : LabeledGraph K) (weights : List K) :
    Except (OracleError K) (List K) := do
  (layout.checkWeights weights).mapError .joint
  scores layout .node weights g.nodes

/-- Potentials with the loss against true labels, up to a constant. -/
def augmented (potentials : List K) (truth : Labeling) : List K :=
  potentials.zipWith (fun u label => u + if label then -1 else 1) truth

/-- The Potts model of a graph under weights, with the loss if true labels are given. -/
def pottsModel (layout : FeatureLayout) (g : LabeledGraph K) (weights : List K)
    (truth : Option Labeling) : Except (OracleError K) (PottsModel K) := do
  let potentials ← nodeScores layout g weights
  let potentials ← match truth with
    | none => .ok potentials
    | some y =>
      if y.length = g.order then .ok (augmented potentials y)
      else .error (.truthCount y.length g.order)
  let edgeScores ← scores layout .edge weights g.edgeVectors
  let pairs := g.edges.pairs.map fun (i, j) => ((i : Int), (j : Int))
  (PottsModel.ofLists potentials pairs edgeScores).mapError .potts

/-- The best labeling of a graph under weights, with the loss if true labels are given. -/
def findLabeling (oracle : SeparationOracle) (g : LabeledGraph K) (weights : List K)
    (truth : Option Labeling) : Except (OracleError K) Labeling := do
  let model ← pottsModel oracle.layout g weights truth
  (model.solve oracle.solver).mapError .solver

/-- The constraint of a labeling. -/
def constraint (layout : FeatureLayout) (g : LabeledGraph K) (truth y : Labeling) :
    Except (OracleError K) (Constraint K) := do
  let loss ← (Labeling.loss truth y).mapError fun e => .label (.input e)
  let vector ← (g.jointVector g.kind layout y).mapError .joint
  .ok ⟨loss, vector⟩

/-- The most violated constraint of a graph with true labels. -/
def solve (oracle : SeparationOracle) (g : LabeledGraph K) (truth : Labeling) (weights : List K) :
    Except (OracleError K) (Constraint K) := do
  constraint oracle.layout g truth (← oracle.findLabeling g weights (some truth))

/-! ## True labels that are given as a value

They are read once the nodes have been scored. -/

/-- Reads true labels after the nodes have been scored. -/
def readTruth (layout : FeatureLayout) (g : LabeledGraph K) (weights : List K)
    (truth : Option Value) : Except (OracleError K) (Option Labeling) := do
  let _ ← nodeScores layout g weights
  truth.mapM fun v => (Labeling.read v).mapError .label

/-- The Potts model of a graph with true labels as they are given. -/
def pottsModelOfGiven (layout : FeatureLayout) (g : LabeledGraph K) (weights : List K)
    (truth : Option Value) : Except (OracleError K) (PottsModel K) := do
  pottsModel layout g weights (← readTruth layout g weights truth)

/-- The best labeling of a graph with true labels as they are given. -/
def findLabelingOfGiven (oracle : SeparationOracle) (g : LabeledGraph K) (weights : List K)
    (truth : Option Value) : Except (OracleError K) Labeling := do
  oracle.findLabeling g weights (← readTruth oracle.layout g weights truth)

/-- The most violated constraint of a graph with true labels as they are given.  Without any, there
is a best labeling, but no loss. -/
def solveGiven (oracle : SeparationOracle) (g : LabeledGraph K) (truth : Option Value)
    (weights : List K) : Except (OracleError K) (Constraint K) := do
  let y ← oracle.findLabelingOfGiven g weights truth
  let truth ← (Labeling.read (truth.getD .null)).mapError .label
  constraint oracle.layout g truth y

end SeparationOracle

end PottsOracle
