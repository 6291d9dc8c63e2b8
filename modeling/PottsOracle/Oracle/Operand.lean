import PottsOracle.Feature.GivenJoint
import PottsOracle.Oracle.Problem

/-!
# Answers and operands

A problem answers queries, and a later query may take an earlier answer for its weights or its joint
feature vector.  So an operand is a value or an answer.  As a block of numbers, an answer is what it
consists of, where a constraint stands for its vector; the answer of a query that has failed is a
single missing number.
-/

namespace PottsOracle

/-- What a problem answers to a query. -/
inductive Answer where
  | number (n : Int)
  | layout (layout : FeatureLayout)
  | kind (kind : FeatureKind)
  | graph (g : LabeledGraph Float)
  | labeling (y : Labeling)
  | vector (v : FeatureVector Float)
  | constraint (c : Constraint Float)
  | constraints (cs : List (Constraint Float))
  | score (x : Float)

/-- Weights or a joint feature vector for a query. -/
inductive Operand where
  | value (v : Value)
  | answer (a : Answer)
  /-- The answer of a query that has failed. -/
  | missing

/-- A block of a single number. -/
def Block.single (x : Float) : Block Float := ⟨[], [x]⟩

/-- A block that is a list of numbers. -/
def Block.ofList (xs : List Float) : Block Float := ⟨[xs.length], xs⟩

/-- Terms as a block: every term is a row of its index and its value. -/
def Block.ofTerms (terms : List (Int × Float)) : Except InputError (Block Float) := do
  let rows ← terms.mapM fun (i, x) => do
    .ok [← Input.floatOfInt i, x]
  .ok ⟨if terms = [] then [0] else [terms.length, 2], rows.flatten⟩

/-- A joint feature vector as a block of numbers. -/
def Block.ofVector : FeatureVector Float → Except InputError (Block Float)
  | .dense entries => .ok (Block.ofList entries)
  | .sparse terms => Block.ofTerms terms

/-- An answer as a block of numbers.  Several constraints are none, because a loss and a vector are
of different shapes. -/
def Answer.toBlock : Answer → Except InputError (Block Float)
  | number n => (Input.floatOfInt n).map Block.single
  | score x => .ok (Block.single x)
  | labeling y => .ok (Block.ofList (y.map fun label => if label then 1 else 0))
  | vector v => Block.ofVector v
  | constraint c => Block.ofVector c.vector
  | constraints _ => .error .malformed
  | layout _ | kind _ | graph _ => .error .wrongType

/-- An answer as the terms of a sparse joint feature vector. -/
def Answer.toTerms : Answer → Except JointError (List (Int × Float))
  | vector (.sparse terms) | constraint ⟨_, .sparse terms⟩ => .ok terms
  | labeling [] => .ok []
  | constraints (_ :: _) => .error .noSuchWeight
  | _ => .error .noScore

namespace Operand

/-- An operand as a block of numbers. -/
def toBlock : Operand → Except InputError (Block Float)
  | value v => v.toFloats
  | answer a => a.toBlock
  | missing => .ok (Block.single Binary64.notANumber)

/-- An operand as weights: its numbers in row order, whatever its shape. -/
def toWeights (operand : Operand) : Except InputError (List Float) :=
  operand.toBlock.map (·.entries)

end Operand

end PottsOracle
