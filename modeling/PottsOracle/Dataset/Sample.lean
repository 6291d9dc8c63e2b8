import PottsOracle.Dataset.Validation

/-!
# Samples

A sample is a graph with its true labels.  Samples make a dataset, which may still be invalid.
-/

namespace PottsOracle

/-- A graph with its true labels. -/
structure Sample (K : Type) where
  graph : LabeledGraph K
  truth : Labeling

namespace Dataset

variable {K : Type}

/-- A labeling as a value. -/
def labelValue (y : Labeling) : Value := .list (y.map .bool)

/-- The dataset of some samples. -/
def ofSamples (samples : List (Sample K)) : Dataset K where
  samples := samples.map fun s => some s.graph
  labels := samples.map fun s => labelValue s.truth

end Dataset

end PottsOracle
