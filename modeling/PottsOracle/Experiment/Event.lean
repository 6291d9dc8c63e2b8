import PottsOracle.Decimal.Style

/-!
# Events of an experiment

An experiment goes through stages and reports what happens: a stage begins, a stage ends, and
results in between.
-/

namespace PottsOracle

/-- Weights that an experiment asks the oracle about. -/
inductive ReferenceWeights where
  | zeros
  | ones
  deriving DecidableEq, Repr

/-- A stage of an experiment. -/
inductive Stage where
  | generation
  | construction
  | truthVectors
  | separation (weights : ReferenceWeights)
  deriving DecidableEq, Repr

/-- What an experiment reports. -/
inductive Event (K : Type) where
  | began (stage : Stage)
  /-- The size of the problem: samples, all weights, and those for edges. -/
  | sizes (samples : Nat) (totalDims edgeWeights : Int)
  | meanLoss (loss : K)
  | ended
  deriving DecidableEq, Repr

/-- The name of weights. -/
def ReferenceWeights.name : ReferenceWeights → String
  | zeros => "zeros"
  | ones => "ones"

/-- The title of a stage. -/
def Stage.title : Stage → String
  | generation => "Data generation"
  | construction => "Problem construction"
  | truthVectors => "Truth feature vectors"
  | separation weights => s!"Separation oracle ({weights.name})"

/-- The lines that are printed for an event.  How long a stage took is given as a text. -/
def Event.render (elapsed : Text) : Event Float → Text
  | began stage => Text.ofString s!"\n=== {stage.title} ===\n"
  | sizes samples totalDims edgeWeights =>
    Text.ofString s!"  samples={samples}, dims={totalDims}, edge weights={edgeWeights}\n"
  | meanLoss loss => Text.ofString "  mean loss=" ++ Decimal.writeFixed 3 loss ++ [10]
  | ended => Text.ofString "... done in " ++ elapsed ++ Text.ofString "s\n"

end PottsOracle
