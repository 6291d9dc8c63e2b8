import PottsOracle.Feature.Joint
import PottsOracle.Graph.LabeledGraph
import PottsOracle.Labeling

/-!
# The joint feature vector of a labeled graph

Under a labeling, every true node contributes its vector to the node block, and every edge between
nodes with different labels contributes its vector to the edge block.
-/

namespace PottsOracle

namespace LabeledGraph

variable {K : Type}

/-- The vectors of the true nodes, in node order. -/
def trueVectors (g : LabeledGraph K) (y : Labeling) : List (FeatureVector K) :=
  (g.nodes.zip y).filterMap fun (v, label) => if label then some v else none

/-- A pair of nodes with different labels. -/
def Cut (y : Labeling) (e : Nat × Nat) : Prop := y.getD e.1 false ≠ y.getD e.2 false

instance (y : Labeling) (e : Nat × Nat) : Decidable (Cut y e) := inferInstanceAs (Decidable (_ ≠ _))

/-- The vectors of the edges between nodes with different labels, in edge order. -/
def cutVectors (g : LabeledGraph K) (y : Labeling) : List (FeatureVector K) :=
  g.featuredEdges.filterMap fun (e, v) => if Cut y e then some v else none

/-- What contributes to the joint feature vector: first nodes, then edges. -/
def contributions (g : LabeledGraph K) (y : Labeling) : List (FeatureBlock × FeatureVector K) :=
  (g.trueVectors y).map (.node, ·) ++ (g.cutVectors y).map (.edge, ·)

/-- The joint feature vector of a graph under a labeling of its nodes, in a representation. -/
def jointVector [Scalar K] (kind : FeatureKind) (layout : FeatureLayout) (g : LabeledGraph K)
    (y : Labeling) : Except JointError (FeatureVector K) :=
  if y.length = g.order then layout.contributeAll (layout.zeros kind) (g.contributions y)
  else .error (.layout (.labelCount y.length g.order))

end LabeledGraph

end PottsOracle
