import PottsOracle.Feature.Given
import PottsOracle.Feature.Joint

/-!
# Joint feature vectors as they are given

A sparse joint feature vector is given as a list of terms, a dense one as a block of any shape.  The
two blocks of the layout then lie along its first extent, and vectors are added to all rows along
its last extent.  Only a block with a single extent has a score.
-/

namespace PottsOracle

/-- A joint feature vector as it is given. -/
inductive GivenJoint where
  | block (b : Block Float)
  | terms (terms : List (Int × Float))

namespace GivenJoint

/-- A joint feature vector as if it were given. -/
def ofVector : FeatureVector Float → GivenJoint
  | .dense entries => block ⟨[entries.length], entries⟩
  | .sparse list => terms list

/-- Reads a joint feature vector in a representation. -/
def read (kind : FeatureKind) (v : Value) : Except InputError GivenJoint :=
  match kind with
  | .dense => v.toFloats.map block
  | .sparse => (GivenVector.readTerms v).map terms

end GivenJoint

namespace FeatureLayout

/-- Adds entries to all rows of a list of rows; a single entry is added everywhere. -/
def addToRows (rows entries : List Float) : List Float :=
  rows.zipIdx.map fun (x, k) => x + entries.getD (k % entries.length) 0

/-- Adds entries to the rows that belong to a block of the layout. -/
def addAlong (layout : FeatureLayout) (part : FeatureBlock) (b : Block Float)
    (entries : List Float) : Except JointError (Block Float) :=
  match b.shape with
  | [] => .error .noEntries
  | count :: inner =>
    if entries.length = inner.getLastD count ∨ entries.length = 1 then
      let start := layout.boundary count * Block.capacity inner
      let (edges, nodes) := b.entries.splitAt start
      .ok { b with
        entries := match part with
          | .node => edges ++ addToRows nodes entries
          | .edge => addToRows edges entries ++ nodes }
    else .error .unequalLengths

/-- Puts a vector into a block of a given joint feature vector.  What is left of it comes with the
reason why the change was not completed. -/
def contributeGiven (layout : FeatureLayout) (part : FeatureBlock) (joint : GivenJoint)
    (v : FeatureVector Float) : GivenJoint × Option JointError :=
  let change (whole : FeatureVector Float) :=
    let c := layout.contribute part whole v
    (GivenJoint.ofVector c.vector, c.failure)
  match joint, v with
  | .terms terms, _ => change (.sparse terms)
  | .block ⟨[_], entries⟩, _ => change (.dense entries)
  | .block _, .sparse _ => (joint, some (.wrongKind .dense))
  | .block b, .dense entries =>
    match layout.misfit? part v with
    | some e => (joint, some (.layout e))
    | none =>
      match layout.addAlong part b (entries.map part.signed) with
      | .ok sums => (.block sums, none)
      | .error e => (joint, some e)

/-- Why some terms cannot be spread over a row.  The length has to be possible; if there are terms,
a word has to hold it, and all their places are checked before the row is made. -/
def rowFailure? (layout : FeatureLayout) (terms : List (Int × Float)) : Option JointError :=
  if terms ≠ [] ∧ 0x8000000000000000 ≤ layout.total then some .indexTooLarge
  else (layout.spreadFailure? terms).or layout.lengthFailure?

/-- All entries of a given joint feature vector. -/
def toDenseGiven (layout : FeatureLayout) : GivenJoint → Except JointError (Block Float)
  | .block b => .ok b
  | .terms terms =>
    match layout.rowFailure? terms with
    | some e => .error e
    | none => .ok ⟨[layout.total.toNat], layout.spread terms⟩

/-- The score of a given joint feature vector. -/
def scoreGiven (layout : FeatureLayout) (joint : GivenJoint) (weights : List Float) :
    Except JointError Float :=
  match joint with
  | .terms terms => layout.score (.sparse terms) weights
  | .block ⟨[_], entries⟩ => layout.score (.dense entries) weights
  | .block b => do
    layout.checkWeights weights
    match b.shape.getLast? with
    | some width => .error (if width = weights.length then .noScore else .unequalLengths)
    | none => .error .noScore

end FeatureLayout

end PottsOracle
