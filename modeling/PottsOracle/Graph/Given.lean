import PottsOracle.Feature.Given
import PottsOracle.Graph.LabeledGraph

/-!
# Graphs as they are given

A graph is given by its vectors and a value that lists its edges.  The value is counted before it
is read: a flat list of two numbers counts as two entries and is one edge, a list of four numbers
inside a list counts as one entry and is two edges.
-/

namespace PottsOracle

/-- A graph as it is given. -/
structure GivenGraph where
  nodes : List GivenVector
  /-- Lists of lists … of endpoints, in row order. -/
  edges : Value
  edgeVectors : List GivenVector
  /-- The representation; if there is none, the first node suggests it. -/
  kind : Option FeatureKind

/-- Why a given graph cannot be used. -/
inductive GivenGraphError where
  | graph (cause : GraphError)
  | vector (cause : VectorError)
  | input (cause : InputError)
  deriving DecidableEq, Repr

/-- The message about a given graph, if the error has one. -/
def GivenGraphError.message? : GivenGraphError → Option String
  | graph cause => cause.message?
  | vector cause => cause.message?
  | input _ => none

namespace GivenGraph

/-- The number of entries of a value. -/
def count (v : Value) : Except InputError Nat := v.items.map List.length

/-- The pairs of endpoints that a value lists. -/
def readPairs (v : Value) : Except InputError (List (Int × Int)) := do
  pairUp (← v.toBlock Input.word).entries

/-- The representation of a given graph: dense if nothing suggests another one. -/
def chosenKind (given : GivenGraph) : FeatureKind :=
  given.kind.getD ((given.nodes.head?.map GivenVector.suggestedKind).getD .dense)

/-- The graph that is given. -/
def read (given : GivenGraph) : Except GivenGraphError (LabeledGraph Float) := do
  let kind := given.chosenKind
  let entries ← (count given.edges).mapError .input
  if entries ≠ given.edgeVectors.length then
    .error (.graph (.countMismatch entries given.edgeVectors.length))
  else
    let pairs ← (readPairs given.edges).mapError .input
    let edges ← (EdgeList.ofPairs given.nodes.length pairs).mapError fun e => .graph (.edges e)
    let nodes ← (GivenVector.readAll kind given.nodes).mapError .vector
    let edgeVectors ← (GivenVector.readAll kind given.edgeVectors).mapError .vector
    .ok {
      kind := kind
      nodes := nodes.val
      edges := edges.cast nodes.property.1.symm
      edgeVectors := edgeVectors.val
      kind_of_mem_nodes := nodes.property.2
      kind_of_mem_edgeVectors := edgeVectors.property.2 }

end GivenGraph

end PottsOracle
