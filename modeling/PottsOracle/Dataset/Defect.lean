import PottsOracle.Feature.Vector

/-!
# Defects of a dataset

What can be wrong with a list of samples and a list of label vectors, and how a message says it.
-/

namespace PottsOracle

/-- What is wrong with one feature vector. -/
inductive VectorDefect where
  | empty
  | negativeIndex
  | negativeValue
  /-- A dense vector is not as long as the first one of its sort in the dataset. -/
  | length (found expected : Nat)
  deriving DecidableEq, Repr

/-- What is wrong with a dataset.  Samples and nodes are numbered from zero. -/
inductive Defect where
  /-- There are no samples, or not as many samples as label vectors. -/
  | sizes (samples labels : Nat)
  | notAGraph (sample : Nat)
  /-- A sample is not in the representation of the first graph. -/
  | mixedKinds (sample : Nat) (found expected : FeatureKind)
  | labelsNotAList (sample : Nat)
  | labelCount (sample nodes labels : Nat)
  | selfLoop (sample : Nat)
  | node (sample node : Nat) (cause : VectorDefect)
  | edge (sample : Nat) (ends : Nat × Nat) (cause : VectorDefect)
  deriving DecidableEq, Repr

/-- The end of a message about a vector. -/
def VectorDefect.message : VectorDefect → String
  | empty => "empty feature vector"
  | negativeIndex => "negative feature index"
  | negativeValue => "negative feature value"
  | length found expected => s!"{found} dims, expected {expected}"

/-- The message about a defect. -/
def Defect.message : Defect → String
  | sizes samples labels =>
    "Need a non-empty dataset with one label vector per sample, "
      ++ s!"got {samples} samples and {labels} label vectors"
  | notAGraph sample => s!"Sample {sample} is not a LabelingGraph"
  | mixedKinds sample found expected =>
    s!"Sample {sample} uses {found.name} vectors, dataset uses {expected.name}"
  | labelsNotAList sample => s!"Sample {sample}: label vector is not a 1-D sequence"
  | labelCount sample nodes labels => s!"Sample {sample}: {nodes} nodes but {labels} labels"
  | selfLoop sample => s!"Sample {sample} contains a self-loop edge"
  | node sample j cause => s!"Sample {sample}, node {j}: " ++ cause.message
  | edge sample (a, b) cause => s!"Sample {sample}, edge ({a},{b}): " ++ cause.message

end PottsOracle
