import PottsOracle.Feature.Layout
import PottsOracle.Graph.EdgeList

/-!
# Graphs with features

An undirected graph that carries a feature vector for every node and for its edges, all in one
representation.  There are usually as many edge vectors as edges; edges beyond the last vector have
no features, and vectors beyond the last edge belong to no edge.
-/

namespace PottsOracle

/-- A graph with features. -/
structure LabeledGraph (K : Type) where
  kind : FeatureKind
  /-- The features of the nodes. -/
  nodes : List (FeatureVector K)
  edges : EdgeList nodes.length
  /-- The features of the edges. -/
  edgeVectors : List (FeatureVector K)
  kind_of_mem_nodes : ∀ v ∈ nodes, v.kind = kind
  kind_of_mem_edgeVectors : ∀ v ∈ edgeVectors, v.kind = kind

/-- Why a graph cannot be built. -/
inductive GraphError where
  /-- There are not as many edges as edge vectors. -/
  | countMismatch (edges vectors : Nat)
  | edges (cause : EdgeListError)
  /-- Some vector is in another representation than the graph. -/
  | mixedKinds
  deriving DecidableEq, Repr

/-- The message about a graph, if the error has one. -/
def GraphError.message? : GraphError → Option String
  | countMismatch found vectors => some s!"Got {found} edges but {vectors} edge vectors"
  | edges cause => some cause.message
  | mixedKinds => none

namespace LabeledGraph

variable {K : Type}

/-- The graph of node vectors, an edge list of pairs and a vector for every pair. -/
def ofEdges (kind : FeatureKind) (nodes : List (FeatureVector K)) (pairs : List (Int × Int))
    (edgeVectors : List (FeatureVector K)) : Except GraphError (LabeledGraph K) := do
  if pairs.length ≠ edgeVectors.length then
    .error (.countMismatch pairs.length edgeVectors.length)
  else
    let edges ← (EdgeList.ofPairs nodes.length pairs).mapError .edges
    if h : (∀ v ∈ nodes, v.kind = kind) ∧ ∀ v ∈ edgeVectors, v.kind = kind then
      .ok ⟨kind, nodes, edges, edgeVectors, h.1, h.2⟩
    else .error .mixedKinds

/-- The number of nodes. -/
def order (g : LabeledGraph K) : Nat := g.nodes.length

/-- The edges that have a vector, with it. -/
def featuredEdges (g : LabeledGraph K) : List ((Nat × Nat) × FeatureVector K) :=
  g.edges.pairs.zip g.edgeVectors

/-- The neighbours of a node with the vectors of the edges that lead to them, unless some edge has
no vector. -/
def neighbours? (g : LabeledGraph K) (i : Nat) : Option (List (Nat × FeatureVector K)) :=
  (g.edges.adjacency.row i).mapM fun (j, e) => g.edgeVectors[e]?.map (j, ·)

/-- The least layout for some graphs. -/
def leastLayout (graphs : List (LabeledGraph K)) : FeatureLayout :=
  (graphs.map fun g => FeatureLayout.ofVectors g.nodes g.edgeVectors).foldl
    FeatureLayout.join FeatureLayout.empty

end LabeledGraph

end PottsOracle
