import PottsOracle.Input.Block

/-!
# Common forms

Numbers that are given together take one form: they are all truth values, all integers that words
hold, or all floats.  A text among them makes texts of them all.  Something that is no number, or an
integer that no word holds, leaves all of them as they are given.
-/

namespace PottsOracle

/-- The form that values take together. -/
inductive NumberForm where
  | truth
  /-- Integers that words with a sign hold. -/
  | signed
  /-- Integers that words without a sign hold. -/
  | unsigned
  | float
  | text
  /-- Every value stays as it is given. -/
  | asGiven
  deriving DecidableEq, Repr

namespace NumberForm

/-- The form of a value by itself. -/
def ofValue : Value → NumberForm
  | .bool _ => truth
  | .int n =>
    if Word.HoldsSigned n then signed else if Word.HoldsUnsigned n then unsigned else asGiven
  | .float _ => float
  | .text _ => text
  | .null | .list _ | .record _ => asGiven

/-- The least form that takes in two others.  Floats take in both kinds of words. -/
def join : NumberForm → NumberForm → NumberForm
  | asGiven, _ | _, asGiven => asGiven
  | text, _ | _, text => text
  | float, _ | _, float => float
  | truth, form | form, truth => form
  | signed, signed => signed
  | unsigned, unsigned => unsigned
  | signed, unsigned | unsigned, signed => float

/-- The form of the entries of a block; without any they are floats. -/
def ofLeaves : List Value → NumberForm
  | [] => float
  | v :: vs => (vs.map ofValue).foldl join (ofValue v)

/-- The form of two values, each a block or a lone entry, that are used side by side.  A lone
integer takes the form of the other side, but is at least a word with a sign. -/
def together : Value → Value → NumberForm
  | .int _, .int _ => signed
  | .int _, v | v, .int _ =>
    match ofLeaves v.leaves with
    | truth => signed
    | form => form
  | v, w => join (ofLeaves v.leaves) (ofLeaves w.leaves)

/-- The integer that a value denotes, if some word holds it. -/
def word (v : Value) : Except InputError Int := do
  let n ← Input.int v
  if Word.Holds n then .ok n else .error .tooLarge

/-- The float nearest to a number in a form.  A text is no number. -/
def read (form : NumberForm) (v : Value) : Except InputError Float :=
  match form with
  | signed => do Input.floatOfInt (Word.signed (← word v))
  | unsigned => do Input.floatOfInt (Word.unsigned (← word v))
  | text => .error .wrongType
  | truth | float | asGiven => Input.float v

/-- A float is below a number in a form.  An integer that stays as it is given is compared
exactly. -/
def isBelow (form : NumberForm) (x : Float) (v : Value) : Except InputError Bool :=
  match form, v with
  | asGiven, .int n => .ok (Binary64.isBelow x n)
  | asGiven, .text _ => .error .wrongType
  | form, v => (form.read v).map (Scalar.lt x)

end NumberForm

end PottsOracle
