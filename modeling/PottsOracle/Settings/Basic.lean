import PottsOracle.Feature.Vector
import PottsOracle.Potts.Solver
import PottsOracle.Settings.Error
import PottsOracle.Settings.Number

/-!
# Settings

The settings of an experiment: how the problem is solved, how its data are generated, a seed, and a
description with tags.  `ProblemFields` and `DataFields` hold values of any type, with a default for
every field; a check turns them into `ProblemSettings` and `DataSettings`, which are in range.
-/

namespace PottsOracle

/-- How a problem is solved. -/
structure ProblemSettings where
  /-- The number of workers for a batch of queries. -/
  threads : Number
  solver : Solver
  one_le_threads : threads.lessThan 1 = false

/-- How data are generated. -/
structure DataSettings where
  samples : Number
  nodes : Number
  nodeDims : Number
  edgeDims : Number
  /-- The probability of an edge between nodes with equal labels. -/
  pSame : Number
  /-- The probability of an edge between nodes with different labels. -/
  pDiff : Number
  /-- What the noise of the features is multiplied with. -/
  noise : Number
  representation : FeatureKind
  one_le_samples : samples.lessThan 1 = false
  one_le_nodes : nodes.lessThan 1 = false
  two_le_nodeDims : nodeDims.lessThan 2 = false
  one_le_edgeDims : edgeDims.lessThan 1 = false
  pSame_inUnit : pSame.inUnit = true
  pDiff_inUnit : pDiff.inUnit = true
  zero_le_noise : noise.lessThan 0 = false

/-- The settings of an experiment. -/
structure Settings where
  problem : ProblemSettings
  data : DataSettings
  seed : Number
  description : Text
  tags : List Text

/-- What the settings of a problem are made from. -/
structure ProblemFields where
  threads : Value
  solver : Value

/-- What the settings of the data are made from. -/
structure DataFields where
  samples : Value
  nodes : Value
  nodeDims : Value
  edgeDims : Value
  pSame : Value
  pDiff : Value
  noise : Value
  representation : Value

/-- The value of a field, or its default. -/
def Fields.getDefault (fields : Fields) (key : String) (default : Value) : Value :=
  (fields.get? (Text.ofString key)).getD default

/-- A value as a number that is not bad. -/
def Number.require (v : Value) (bad : Number → Bool) (e : RangeError) :
    Except SettingsError {x : Number // bad x = false} :=
  match Number.ofValue? v with
  | none => .error (.input .wrongType)
  | some x =>
    match h : bad x with
    | true => .error (.range e)
    | false => .ok ⟨x, h⟩

/-- The value that a name stands for; any other value is no name. -/
def Value.named? {α : Type} (names : List (String × α)) (v : Value) : Option α :=
  match v with
  | .text t => (names.find? fun (name, _) => Text.ofString name = t).map (·.2)
  | _ => none

namespace ProblemFields

/-- The names of the fields. -/
def names : List String := ["num_threads", "solver"]

/-- The fields in a record, with defaults for those that are missing. -/
def ofRecord (fields : Fields) : ProblemFields where
  threads := fields.getDefault "num_threads" (.int 2)
  solver := fields.getDefault "solver" (.ofString "mincut")

/-- The solvers with their names. -/
def solvers : List (String × Solver) := [Solver.minCut, Solver.exhaustive].map fun s => (s.name, s)

/-- The settings of some fields. -/
def check (f : ProblemFields) : Except SettingsError ProblemSettings := do
  let threads ← Number.require f.threads (·.lessThan 1) (.threads f.threads)
  match Value.named? solvers f.solver with
  | none => .error (.range (.solver f.solver))
  | some solver => .ok ⟨threads.val, solver, threads.property⟩

end ProblemFields

namespace DataFields

/-- The names of the fields. -/
def names : List String :=
  ["n_samples", "n_nodes", "node_dims", "edge_dims", "p_same", "p_diff", "noise", "representation"]

/-- The fields in a record, with defaults for those that are missing. -/
def ofRecord (fields : Fields) : DataFields where
  samples := fields.getDefault "n_samples" (.int 20)
  nodes := fields.getDefault "n_nodes" (.int 12)
  nodeDims := fields.getDefault "node_dims" (.int 4)
  edgeDims := fields.getDefault "edge_dims" (.int 2)
  pSame := fields.getDefault "p_same" (.float 0.4)
  pDiff := fields.getDefault "p_diff" (.float 0.05)
  noise := fields.getDefault "noise" (.float 0.5)
  representation := fields.getDefault "representation" (.ofString "dense")

/-- The representations with their names. -/
def representations : List (String × FeatureKind) :=
  [FeatureKind.dense, FeatureKind.sparse].map fun k => (k.name, k)

/-- The settings of some fields. -/
def check (f : DataFields) : Except SettingsError DataSettings := do
  let samples ← Number.require f.samples (·.lessThan 1) (.sizes f.samples f.nodes)
  let nodes ← Number.require f.nodes (·.lessThan 1) (.sizes f.samples f.nodes)
  let nodeDims ← Number.require f.nodeDims (·.lessThan 2) (.dims f.nodeDims f.edgeDims)
  let edgeDims ← Number.require f.edgeDims (·.lessThan 1) (.dims f.nodeDims f.edgeDims)
  let pSame ← Number.require f.pSame (!·.inUnit) (.probability "p_same" f.pSame)
  let pDiff ← Number.require f.pDiff (!·.inUnit) (.probability "p_diff" f.pDiff)
  let noise ← Number.require f.noise (·.lessThan 0) (.noise f.noise)
  match Value.named? representations f.representation with
  | none => .error (.range (.representation f.representation))
  | some representation =>
    .ok {
      samples := samples.val, nodes := nodes.val
      nodeDims := nodeDims.val, edgeDims := edgeDims.val
      pSame := pSame.val, pDiff := pDiff.val, noise := noise.val
      representation := representation
      one_le_samples := samples.property, one_le_nodes := nodes.property
      two_le_nodeDims := nodeDims.property, one_le_edgeDims := edgeDims.property
      pSame_inUnit := by simpa using pSame.property
      pDiff_inUnit := by simpa using pDiff.property
      zero_le_noise := noise.property }

end DataFields

/-! ## Fields that are given by name -/

/-- Every field has a known name. -/
def Fields.checkNames (fields : Fields) (names : List String) : Except SettingsError Unit :=
  if fields.keys.all fun key => names.any fun name => Text.ofString name = key then .ok ()
  else .error (.input .wrongType)

/-- The settings of a problem from given fields; their types are not checked beforehand. -/
def ProblemSettings.ofGiven (fields : Fields) : Except SettingsError ProblemSettings := do
  fields.checkNames ProblemFields.names
  (ProblemFields.ofRecord fields).check

/-- The settings of the data from given fields; their types are not checked beforehand. -/
def DataSettings.ofGiven (fields : Fields) : Except SettingsError DataSettings := do
  fields.checkNames DataFields.names
  (DataFields.ofRecord fields).check

end PottsOracle
