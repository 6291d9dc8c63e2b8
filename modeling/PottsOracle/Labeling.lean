import PottsOracle.Arith.Scalar
import PottsOracle.Input.Form

/-!
# Labelings

A labeling gives a truth value to every node, in node order.  Labels are given as values, usually
truth values or small integers: what is not zero is true.

If a text stands among plain numbers the whole list counts as texts, and then every label is true,
a zero as well.  A missing value, a record or an integer beyond sixty-four bits keeps the list as
it is, and the labels are judged one by one.
-/

namespace PottsOracle

/-- A truth value for every node. -/
abbrev Labeling := List Bool

/-- Why given labels are no labeling. -/
inductive LabelError where
  | input (cause : InputError)
  /-- Labels must be a list with exactly one extent. -/
  | notOneDimensional (shape : List Nat)
  deriving DecidableEq, Repr

/-- The message about labels, if the error has one. -/
def LabelError.message? : LabelError → Option String
  | input _ => none
  | notOneDimensional shape => some ("Label vectors must be 1-D, got shape " ++ showShape shape)

namespace Labeling

/-- A label that differs from zero. -/
def differsFromZero : Value → Bool
  | .bool b => b
  | .int n => n != 0
  | .float x => !(Scalar.eq x 0)
  | .null | .text _ | .list _ | .record _ => true

/-- The labels of a list without inner lists. -/
def ofLeaves (leaves : List Value) : Labeling :=
  if NumberForm.ofLeaves leaves = .text then leaves.map fun _ => true
  else leaves.map differsFromZero

/-- The labeling that a value denotes. -/
def read (v : Value) : Except LabelError Labeling :=
  match v.shape? with
  | none => .error (.input .malformed)
  | some [_] => .ok (ofLeaves v.leaves)
  | some shape => .error (.notOneDimensional shape)

/-- The labeling of a list in which a label is true unless it is nothing. -/
def readMarks (v : Value) : Except InputError Labeling := do
  let marks ← v.toMarks
  match marks.shape with
  | [] => .error .wrongType
  | [_] => .ok marks.entries
  | _ => .error .malformed

/-- The number of nodes on which two labelings differ.  A labeling of a single node is compared
with every node of the other one; otherwise the lengths have to agree. -/
def hamming (truth labeling : Labeling) : Except InputError Nat :=
  match truth, labeling with
  | [a], bs => .ok (bs.countP (· != a))
  | as, [b] => .ok (as.countP (· != b))
  | as, bs =>
    if as.length = bs.length then .ok ((as.zip bs).countP fun (a, b) => a != b)
    else .error .malformed

/-- The Hamming loss as a scalar. -/
def loss {K : Type} [Scalar K] (truth labeling : Labeling) : Except InputError K :=
  (hamming truth labeling).map Scalar.ofNat

end Labeling

end PottsOracle
