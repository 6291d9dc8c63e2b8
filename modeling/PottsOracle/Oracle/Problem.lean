import PottsOracle.Dataset.Sample
import PottsOracle.Oracle.Separation

/-!
# Graph-labeling problems

A valid dataset with its layout, its representation and a solver.  Everything a trainer asks for is
answered per sample: the graph and its labels, joint feature vectors, predictions, and the most
violated constraint under some weights.
-/

namespace PottsOracle

/-- A valid dataset that is ready for queries. -/
structure Problem (K : Type) where
  samples : List (Sample K)
  kind : FeatureKind
  layout : FeatureLayout
  solver : Solver

/-- Why there is no problem for a dataset. -/
inductive DatasetError where
  /-- The dataset could not even be judged. -/
  | unpaired (cause : UnpairedVector)
  | invalid (defects : List Defect)
  deriving DecidableEq, Repr

/-- Why a query has no answer. -/
inductive QueryError (K : Type) where
  /-- There is no sample of this number. -/
  | noSuchSample (index : Int) (samples : Nat)
  | oracle (cause : OracleError K)
  deriving DecidableEq, Repr

/-- How many defects a message lists. -/
def DatasetError.listedDefects : Nat := 5

/-- The message about a dataset, if the error has one: the number of defects and the first of
them. -/
def DatasetError.message? : DatasetError → Option String
  | unpaired _ => none
  | invalid defects =>
    some (s!"Invalid graph labeling dataset ({defects.length} problems): "
      ++ "; ".intercalate ((defects.take listedDefects).map Defect.message))

/-- The message about a query, if the error has one. -/
def QueryError.message? : QueryError Float → Option Text
  | noSuchSample index samples =>
    some (Text.ofString s!"Sample index {index} out of range [0, {samples})")
  | oracle cause => cause.message?

namespace Problem

variable {K : Type} [Scalar K]

/-- The samples of a dataset; what is no graph or has no labels is left out. -/
def samplesOf (d : Dataset K) : List (Sample K) :=
  (d.samples.zip d.labels).filterMap fun (sample, label) =>
    match sample, Labeling.read label with
    | some g, .ok y => some ⟨g, y⟩
    | _, _ => none

/-- The problem of a valid dataset. -/
def ofDataset (d : Dataset K) (solver : Solver) : Except DatasetError (Problem K) := do
  let defects ← d.defects.mapError .unpaired
  if defects = [] then
    let samples := samplesOf d
    let graphs := samples.map (·.graph)
    .ok {
      samples := samples
      kind := (graphs.head?.map (·.kind)).getD .dense
      layout := LabeledGraph.leastLayout graphs
      solver := solver }
  else .error (.invalid defects)

/-- The oracle for the samples. -/
def oracle (p : Problem K) : SeparationOracle := ⟨p.layout, p.solver⟩

/-- The number of samples. -/
def size (p : Problem K) : Nat := p.samples.length

/-- The length of weight vectors. -/
def totalDims (p : Problem K) : Int := p.layout.total

/-- The number of the first weights, which must not be negative. -/
def edgeWeights (p : Problem K) : Int := p.layout.edgeDims

/-- The sample of a number. -/
def sample (p : Problem K) (index : Int) : Except (QueryError K) (Sample K) :=
  match (if 0 ≤ index then p.samples[index.toNat]? else none) with
  | some s => .ok s
  | none => .error (.noSuchSample index p.size)

/-- The joint feature vector of a sample under a labeling. -/
def jointVector (p : Problem K) (s : Sample K) (y : Labeling) :
    Except (QueryError K) (FeatureVector K) :=
  (s.graph.jointVector p.kind p.layout y).mapError fun e => .oracle (.joint e)

/-- The joint feature vector of a sample under its true labels. -/
def truthVector (p : Problem K) (s : Sample K) : Except (QueryError K) (FeatureVector K) :=
  p.jointVector s s.truth

/-- The most violated constraint of a sample. -/
def separate (p : Problem K) (s : Sample K) (weights : List K) :
    Except (QueryError K) (Constraint K) :=
  (p.oracle.solve s.graph s.truth weights).mapError .oracle

/-- The most violated constraint of every sample, in order. -/
def separateAll (p : Problem K) (weights : List K) : Except (QueryError K) (List (Constraint K)) :=
  do
    (p.layout.checkWeights weights).mapError fun e => .oracle (.joint e)
    p.samples.mapM fun s => p.separate s weights

/-- The labeling of a sample with the highest score. -/
def predict (p : Problem K) (s : Sample K) (weights : List K) : Except (QueryError K) Labeling :=
  (p.oracle.findLabeling s.graph weights none).mapError .oracle

/-- The score of a joint feature vector. -/
def score (p : Problem K) (vector : FeatureVector K) (weights : List K) :
    Except (QueryError K) K :=
  (p.layout.score vector weights).mapError fun e => .oracle (.joint e)

end Problem

end PottsOracle
