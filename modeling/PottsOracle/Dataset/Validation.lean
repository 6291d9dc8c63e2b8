import PottsOracle.Dataset.Defect
import PottsOracle.Graph.LabeledGraph
import PottsOracle.Labeling

/-!
# Validation

A dataset is one graph and one label vector for every sample.  It is valid if all graphs share one
representation, every node has a label, no edge joins a node to itself, no vector is empty or has a
negative index, no edge vector has a negative value, and dense vectors of one sort are equally
long.  `Dataset.defects` lists everything that is wrong, sample by sample; what a later sample is
compared with is set by the first sample that has it.
-/

namespace PottsOracle

/-- Samples, of which some may be no graphs, and label vectors. -/
structure Dataset (K : Type) where
  samples : List (Option (LabeledGraph K))
  labels : List Value

/-- An edge vector without an edge: it cannot be named in a message. -/
structure UnpairedVector where
  sample : Nat
  vector : Nat
  deriving DecidableEq, Repr

/-- What the samples so far have set for those that follow. -/
structure Standard where
  kind : Option FeatureKind
  nodeDims : Option Nat
  edgeDims : Option Nat
  deriving DecidableEq, Repr

namespace FeatureVector

variable {K : Type}

/-- Compares the length of a dense vector with the length that is expected, which it sets if there
is none. -/
def checkLength (expected : Option Nat) : FeatureVector K → Option Nat × List VectorDefect
  | sparse _ => (expected, [])
  | dense entries =>
    match expected with
    | none => (some entries.length, [])
    | some d => (expected, if entries.length = d then [] else [.length entries.length d])

/-- Checks a node vector: at most one defect is reported. -/
def checkNode (expected : Option Nat) (v : FeatureVector K) : Option Nat × List VectorDefect :=
  if v.size = 0 then (expected, [.empty])
  else if v.hasNegativeIndex then (expected, [.negativeIndex])
  else v.checkLength expected

/-- Checks an edge vector, whose values must not be negative either. -/
def checkEdge [Scalar K] (expected : Option Nat) (v : FeatureVector K) :
    Option Nat × List VectorDefect :=
  if v.size = 0 then (expected, [.empty])
  else
    let (expected, lengths) := v.checkLength expected
    (expected, (if v.hasNegativeIndex then [.negativeIndex] else [])
      ++ (if v.hasNegativeEntry then [.negativeValue] else []) ++ lengths)

/-- Checks vectors one after the other, each with the length that those before it have set. -/
def checkAll (check : Option Nat → FeatureVector K → Option Nat × List VectorDefect)
    (expected : Option Nat) : List (FeatureVector K) → Option Nat × List (List VectorDefect)
  | [] => (expected, [])
  | v :: vs =>
    let (expected, defects) := check expected v
    let (expected, rest) := checkAll check expected vs
    (expected, defects :: rest)

end FeatureVector

namespace Dataset

variable {K : Type}

/-- There are samples, and as many label vectors. -/
def isLearningProblem (d : Dataset K) : Bool :=
  d.samples.length == d.labels.length && 0 < d.samples.length

/-- The defects of the labels of a graph. -/
def labelDefects (i : Nat) (g : LabeledGraph K) (label : Value) : List Defect :=
  match Labeling.read label with
  | .error _ => [.labelsNotAList i]
  | .ok y => if y.length = g.order then [] else [.labelCount i g.order y.length]

/-- The defects of a graph in the representation of the dataset, with its labels.  Some edge vector
may have no edge. -/
def graphDefects [Scalar K] (standard : Standard) (i : Nat) (g : LabeledGraph K) (label : Value) :
    Except UnpairedVector (Standard × List Defect) :=
  let (nodeDims, nodes) := FeatureVector.checkAll FeatureVector.checkNode standard.nodeDims g.nodes
  let (edgeDims, edges) :=
    FeatureVector.checkAll FeatureVector.checkEdge standard.edgeDims g.edgeVectors
  if g.edges.pairs.length < g.edgeVectors.length then .error ⟨i, g.edges.pairs.length⟩
  else .ok (⟨g.kind, nodeDims, edgeDims⟩,
    labelDefects i g label
      ++ (if g.edges.hasSelfLoop then [.selfLoop i] else [])
      ++ (nodes.zipIdx.flatMap fun (causes, j) => causes.map (.node i j ·))
      ++ ((g.edges.pairs.zip edges).flatMap fun (ends, causes) => causes.map (.edge i ends ·)))

/-- The defects of a sample. -/
def sampleDefects [Scalar K] (standard : Standard) (i : Nat) (sample : Option (LabeledGraph K))
    (label : Value) : Except UnpairedVector (Standard × List Defect) :=
  match sample with
  | none => .ok (standard, [.notAGraph i])
  | some g =>
    let kind := standard.kind.getD g.kind
    if g.kind = kind then graphDefects standard i g label
    else .ok (standard, [.mixedKinds i g.kind kind])

/-- The defects of samples that are numbered from `i` on. -/
def defectsFrom [Scalar K] (standard : Standard) (i : Nat) :
    List (Option (LabeledGraph K) × Value) → Except UnpairedVector (List Defect)
  | [] => .ok []
  | (sample, label) :: rest => do
    let (standard, defects) ← sampleDefects standard i sample label
    .ok (defects ++ (← defectsFrom standard (i + 1) rest))

/-- Everything that is wrong with a dataset. -/
def defects [Scalar K] (d : Dataset K) : Except UnpairedVector (List Defect) :=
  if d.isLearningProblem then defectsFrom ⟨none, none, none⟩ 0 (d.samples.zip d.labels)
  else .ok [.sizes d.samples.length d.labels.length]

/-- Nothing is wrong with a dataset. -/
def isValid [Scalar K] (d : Dataset K) : Except UnpairedVector Bool :=
  d.defects.map List.isEmpty

end Dataset

end PottsOracle
