import PottsOracle.Json.Display
import PottsOracle.Oracle.Operand
import PottsOracle.Settings.Number

/-!
# Queries

What a trainer asks a problem for, with numbers of samples, labelings, weights and joint feature
vectors given as values.  Weights and vectors may also be the answers of earlier queries.  Those are
looked up before anything else is done; then values are read in the order in which a query comes to
need them.  A joint feature vector that is given as a value is even read before the weights are
looked up.
-/

namespace PottsOracle

/-- Weights or a joint feature vector, as a query names them. -/
inductive Argument where
  | value (v : Value)
  /-- The answer of the query at a place among the earlier ones. -/
  | earlier (place : Value)

/-- What a problem is asked for. -/
inductive Query where
  | size
  | totalDims
  | edgeWeights
  | layout
  | kind
  | sample (index : Value)
  | truth (index : Value)
  | truthVector (index : Value)
  | jointVector (index labeling : Value)
  | predict (index : Value) (weights : Argument)
  | separate (index : Value) (weights : Argument)
  | separateAll (weights : Argument)
  | score (vector weights : Argument)

/-- Why a given query has no answer. -/
inductive GivenQueryError where
  | input (cause : InputError)
  | label (cause : LabelError)
  /-- There is no sample of the number that is given. -/
  | noSuchSample (printed : Text) (samples : Nat)
  /-- There is no earlier query at a place. -/
  | noSuchAnswer
  | query (cause : QueryError Float)

/-- The message about a given query, if the error has one. -/
def GivenQueryError.message? : GivenQueryError → Option Text
  | input _ | noSuchAnswer => none
  | label cause => cause.message?.map Text.ofString
  | noSuchSample printed samples =>
    some (Text.ofString "Sample index " ++ printed
      ++ Text.ofString s!" out of range [0, {samples})")
  | query cause => cause.message?

/-- Looks an argument up among the answers of earlier queries. -/
def Argument.resolve (earlier : List (Option Answer)) : Argument → Except GivenQueryError Operand
  | value v => .ok (.value v)
  | Argument.earlier place => do
    let place ← (Input.place place).mapError .input
    match Place.get? earlier place with
    | none => .error .noSuchAnswer
    | some none => .ok .missing
    | some (some a) => .ok (.answer a)

namespace Problem

/-- The sample of a given number. -/
def sampleGiven (p : Problem Float) (index : Value) : Except GivenQueryError (Sample Float) :=
  match Number.ofValue? index with
  | none => .error (.input .wrongType)
  | some x =>
    if x.lessThan 0 || !x.lessThan p.size then .error (.noSuchSample index.printed p.size)
    else match x with
      | .float _ => .error (.input .wrongType)
      | .int n => (p.sample n).mapError .query
      | .bool b => (p.sample b.toNat).mapError .query

/-- What fails about a joint feature vector fails the query. -/
def ofJoint {α : Type} (x : Except JointError α) : Except GivenQueryError α :=
  x.mapError fun e => .query (.oracle (.joint e))

/-- Weights that are given as an operand. -/
def weightsGiven (weights : Operand) : Except GivenQueryError (List Float) :=
  weights.toWeights.mapError .input

/-- An answer, or a missing one, as a joint feature vector in a representation. -/
def jointOfOperand (kind : FeatureKind) (operand : Operand) : Except GivenQueryError GivenJoint :=
  match kind, operand with
  | .dense, operand => (operand.toBlock.mapError .input).map .block
  | .sparse, .answer a => (ofJoint a.toTerms).map .terms
  | .sparse, .value _ | .sparse, .missing => ofJoint (.error .noScore)

/-- A joint feature vector that is given as an operand.  A value is read at once; what an answer
amounts to is the inner result, which is looked at when the vector is needed. -/
def vectorGiven (kind : FeatureKind) :
    Operand → Except GivenQueryError (Except GivenQueryError GivenJoint)
  | .value v => ((GivenJoint.read kind v).mapError .input).map .ok
  | operand => .ok (jointOfOperand kind operand)

/-- The score of a joint feature vector under weights that are given as an operand.  A dense vector
is needed before the weights are read, the terms of a sparse one after they are checked. -/
def scoreGiven (p : Problem Float) (vector : Except GivenQueryError GivenJoint)
    (weights : Operand) : Except GivenQueryError Float :=
  match p.kind with
  | .dense => do
    let joint ← vector
    let weights ← weightsGiven weights
    ofJoint (p.layout.scoreGiven joint weights)
  | .sparse => do
    let weights ← weightsGiven weights
    ofJoint (p.layout.checkWeights weights)
    ofJoint (p.layout.scoreGiven (← vector) weights)

/-- The answer to a query, with the answers of the earlier ones at hand. -/
def answer (p : Problem Float) (earlier : List (Option Answer)) :
    Query → Except GivenQueryError Answer
  | .size => .ok (.number p.size)
  | .totalDims => .ok (.number p.totalDims)
  | .edgeWeights => .ok (.number p.edgeWeights)
  | .layout => .ok (.layout p.layout)
  | .kind => .ok (.kind p.kind)
  | .sample index => do
    return .graph (← p.sampleGiven index).graph
  | .truth index => do
    return .labeling (← p.sampleGiven index).truth
  | .truthVector index => do
    return .vector (← (p.truthVector (← p.sampleGiven index)).mapError .query)
  | .jointVector index labeling => do
    let s ← p.sampleGiven index
    let y ← (Labeling.read labeling).mapError .label
    return .vector (← (p.jointVector s y).mapError .query)
  | .predict index weights => do
    let weights ← weights.resolve earlier
    let s ← p.sampleGiven index
    return .labeling (← (p.predict s (← weightsGiven weights)).mapError .query)
  | .separate index weights => do
    let weights ← weights.resolve earlier
    let s ← p.sampleGiven index
    return .constraint (← (p.separate s (← weightsGiven weights)).mapError .query)
  | .separateAll weights => do
    let weights ← weights.resolve earlier
    return .constraints (← (p.separateAll (← weightsGiven weights)).mapError .query)
  | .score vector weights => do
    let vector ← vectorGiven p.kind (← vector.resolve earlier)
    let weights ← weights.resolve earlier
    return .score (← p.scoreGiven vector weights)

end Problem

end PottsOracle
