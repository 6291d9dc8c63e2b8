import PottsOracle.Experiment.Event
import PottsOracle.Oracle.Problem
import PottsOracle.Settings.Document
import PottsOracle.Synthetic.Generator

/-!
# Running an experiment

An experiment generates data, builds the problem for them, computes the joint feature vectors of the
true labels, and asks for the most violated constraints, once under weights that are all zero and
once under weights that are all one.  Its result is a summary; on the way it reports events, also if
it fails.
-/

namespace PottsOracle

/-- Why an experiment fails. -/
inductive ExperimentError (K : Type) where
  | parameters (cause : InputError)
  | graph (cause : GraphError)
  | dataset (cause : DatasetError)
  | query (cause : QueryError K)
  deriving DecidableEq, Repr

/-- The message about an experiment, if the error has one. -/
def ExperimentError.message? : ExperimentError Float → Option Text
  | parameters _ => none
  | graph cause => cause.message?.map Text.ofString
  | dataset cause => cause.message?.map Text.ofString
  | query cause => cause.message?

/-- The result of an experiment. -/
structure Summary (K : Type) where
  samples : Nat
  totalDims : Int
  edgeWeights : Int
  /-- The mean loss under weights that are all zero. -/
  meanLossZeros : K
  /-- The mean loss under weights that are all one. -/
  meanLossOnes : K
  deriving DecidableEq, Repr

/-- A computation that reports events and may fail. -/
structure Reported (K α : Type) where
  events : List (Event K)
  outcome : Except (ExperimentError K) α

namespace Reported

variable {K α β : Type}

/-- A result without events. -/
def ofOutcome (outcome : Except (ExperimentError K) α) : Reported K α := ⟨[], outcome⟩

/-- One event. -/
def report (event : Event K) : Reported K Unit := ⟨[event], .ok ()⟩

/-- Goes on with a result; after a failure nothing more is reported. -/
def andThen (x : Reported K α) (f : α → Reported K β) : Reported K β :=
  match x.outcome with
  | .ok a =>
    let y := f a
    ⟨x.events ++ y.events, y.outcome⟩
  | .error e => ⟨x.events, .error e⟩

instance : Monad (Reported K) where
  pure a := ⟨[], .ok a⟩
  bind := andThen

/-- The same as a stage: its end is reported only if it does not fail. -/
def stage (s : Stage) (body : Reported K α) : Reported K α := do
  report (.began s)
  let a ← body
  report .ended
  pure a

@[simp]
theorem outcome_bind (x : Reported K α) (f : α → Reported K β) :
    (x >>= f).outcome = x.outcome >>= fun a => (f a).outcome := by
  show (x.andThen f).outcome = _
  unfold andThen
  cases x.outcome <;> rfl

@[simp]
theorem outcome_stage (s : Stage) (body : Reported K α) :
    (stage s body).outcome = body.outcome := by
  simp only [stage, outcome_bind, report]
  cases body.outcome <;> rfl

end Reported

namespace Experiment

variable {K : Type} [Scalar K]

/-- The mean of some numbers. -/
def mean (xs : List K) : K := Scalar.total xs / Scalar.ofNat xs.length

/-- Weights of a kind, one for every dimension. -/
def weights (totalDims : Int) : ReferenceWeights → List K
  | .zeros => List.replicate totalDims.toNat 0
  | .ones => List.replicate totalDims.toNat 1

/-- The mean loss of all samples under reference weights. -/
def meanLoss (p : Problem K) (reference : ReferenceWeights) :
    Except (ExperimentError K) K := do
  let constraints ← (p.separateAll (weights p.totalDims reference)).mapError .query
  .ok (mean (constraints.map (·.loss)))

/-- The stage that asks the oracle under reference weights. -/
def separationStage (p : Problem K) (reference : ReferenceWeights) : Reported K K :=
  .stage (.separation reference) do
    let loss ← .ofOutcome (meanLoss p reference)
    .report (.meanLoss loss)
    pure loss

/-- The experiment on generated data. -/
def run (g : Generator K) (solver : Solver) (draws : Draws K) : Reported K (Summary K) := do
  let samples ← .stage .generation
    (.ofOutcome ((Synthetic.generate g draws).mapError .graph))
  let p ← .stage .construction do
    let p ← .ofOutcome ((Problem.ofDataset (.ofSamples samples) solver).mapError .dataset)
    .report (.sizes p.size p.totalDims p.edgeWeights)
    pure p
  let _ ← .stage .truthVectors
    (.ofOutcome ((p.samples.mapM p.truthVector).mapError .query))
  let zeros ← separationStage p .zeros
  let ones ← separationStage p .ones
  pure ⟨p.size, p.totalDims, p.edgeWeights, zeros, ones⟩

/-- The experiment of some settings, if there are draws.  Without draws, and with settings that give
no generator, it fails while data are generated. -/
def runSettings (s : Settings) (draws : Except InputError (Draws Float)) :
    Reported Float (Summary Float) :=
  match draws, s.data.generator with
  | .ok draws, .ok g => run g s.problem.solver draws
  | .error e, _ | .ok _, .error e => .stage .generation (.ofOutcome (.error (.parameters e)))

end Experiment

end PottsOracle
