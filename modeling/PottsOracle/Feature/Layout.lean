import PottsOracle.Feature.Vector
import PottsOracle.Place

/-!
# Layouts

Weight vectors and joint feature vectors have two blocks: first one entry for every edge feature,
then one for every node feature.  A layout says how long the blocks are.  A layout that is asked for
may have a negative length; then nothing fits the block of that length, and the cut between the
blocks counts from the end.
-/

namespace PottsOracle

/-- The lengths of the two blocks. -/
structure FeatureLayout where
  nodeDims : Int
  edgeDims : Int
  deriving DecidableEq, Repr

/-- A block of a layout. -/
inductive FeatureBlock where
  | node
  | edge
  deriving DecidableEq, Repr

/-- The name of a block in messages. -/
def FeatureBlock.name : FeatureBlock → String
  | .node => "Node"
  | .edge => "Edge"

namespace FeatureLayout

/-- The length of a whole weight vector. -/
def total (layout : FeatureLayout) : Int := layout.edgeDims + layout.nodeDims

/-- The length of a block. -/
def dims (layout : FeatureLayout) : FeatureBlock → Int
  | .node => layout.nodeDims
  | .edge => layout.edgeDims

/-- Where a block starts. -/
def offset (layout : FeatureLayout) : FeatureBlock → Int
  | .node => layout.edgeDims
  | .edge => 0

/-- How many of some entries belong to the edge block; the others belong to the node block. -/
def boundary (layout : FeatureLayout) (length : Nat) : Nat := Place.cut length layout.edgeDims

/-- The layout without any entry. -/
def empty : FeatureLayout := ⟨0, 0⟩

/-- The least layout that holds both. -/
def join (a b : FeatureLayout) : FeatureLayout :=
  ⟨max a.nodeDims b.nodeDims, max a.edgeDims b.edgeDims⟩

/-- The least layout for some node vectors and some edge vectors. -/
def ofVectors {K : Type} (nodes edges : List (FeatureVector K)) : FeatureLayout where
  nodeDims := (nodes.map (·.extent)).foldl max 0
  edgeDims := (edges.map (·.extent)).foldl max 0

end FeatureLayout

end PottsOracle
