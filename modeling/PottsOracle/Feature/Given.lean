import PottsOracle.Feature.Vector
import PottsOracle.Input.Block

/-!
# Feature vectors as they are given

A vector can be given as a value (a list of numbers, or of pairs), as a mapping from indices to
values, or as a block of floats.  It is read in the representation that its graph uses.
-/

namespace PottsOracle

/-- A feature vector as it is given. -/
inductive GivenVector where
  | value (v : Value)
  /-- Keys with their values, in order; no key occurs twice. -/
  | mapping (items : List (Value × Value))
  | block (b : Block Float)

/-- Why a given vector cannot be used. -/
inductive VectorError where
  | input (cause : InputError)
  /-- A dense vector must have exactly one extent. -/
  | notOneDimensional (shape : List Nat)
  deriving DecidableEq, Repr

/-- The message about a vector, if the error has one. -/
def VectorError.message? : VectorError → Option String
  | input _ => none
  | notOneDimensional shape =>
    some ("Dense feature vectors must be 1-D, got shape " ++ showShape shape)

namespace GivenVector

/-- A dense vector is the entries of a block with one extent. -/
def readDense (given : GivenVector) : Except VectorError (List Float) := do
  let block ← match given with
    | value v => v.toFloats.mapError .input
    | mapping _ => .error (.input .wrongType)
    | block b => .ok b
  if block.shape.length = 1 then .ok block.entries
  else .error (.notOneDimensional block.shape)

/-- The two items of a pair.  A text of two characters is a pair, and so is a record of two fields,
which stands for its keys. -/
def unpair : Value → Except InputError (Value × Value)
  | .list [a, b] => .ok (a, b)
  | .text [a, b] => .ok (.text [a], .text [b])
  | .record [(a, _), (b, _)] => .ok (.text a, .text b)
  | .list _ | .text _ | .record _ => .error .malformed
  | .null | .bool _ | .int _ | .float _ => .error .wrongType

/-- An index and a value. -/
def readTerm (index v : Value) : Except InputError (Int × Float) := do
  let i ← Input.int index
  let x ← Input.float v
  .ok (i, x)

/-- The terms that a value lists, each one as a pair. -/
def readTerms (v : Value) : Except InputError (List (Int × Float)) := do
  (← v.items).mapM fun pair => do
    let (index, x) ← unpair pair
    readTerm index x

/-- The rows of a block as terms: every row is an index and a value. -/
def readRows : List Float → Except InputError (List (Int × Float))
  | index :: x :: rest => do
    let i ← Input.int (.float index)
    .ok ((i, x) :: (← readRows rest))
  | _ => .ok []

/-- A sparse vector is a row of pairs of an index and a value.  A block has to have two extents, and
rows of two entries, unless it has no rows at all. -/
def readSparse : GivenVector → Except InputError (List (Int × Float))
  | value (.record fields) => fields.mapM fun (k, v) => readTerm (.text k) v
  | value v => readTerms v
  | mapping items => items.mapM fun (k, v) => readTerm k v
  | block ⟨0 :: _, _⟩ => .ok []
  | block ⟨[_, 2], entries⟩ => readRows entries
  | block ⟨[], _⟩ | block ⟨[_], _⟩ | block ⟨_ :: 2 :: _, _⟩ => .error .wrongType
  | block _ => .error .malformed

/-- A given vector in a representation. -/
def read (kind : FeatureKind) (given : GivenVector) : Except VectorError (FeatureVector Float) :=
  match kind with
  | .dense => given.readDense.map .dense
  | .sparse => (given.readSparse.mapError .input).map .sparse

theorem kind_of_read {kind : FeatureKind} {given : GivenVector} {v : FeatureVector Float}
    (h : given.read kind = .ok v) : v.kind = kind := by
  cases kind
  · cases hd : given.readDense with
    | error e => simp [read, hd, Except.map] at h
    | ok entries => simp [read, hd, Except.map] at h; simp [← h, FeatureVector.kind]
  · cases hs : given.readSparse with
    | error e =>
      rw [read, hs] at h
      cases h
    | ok terms =>
      rw [read, hs] at h
      cases h
      rfl

/-- All given vectors in a representation, one after the other. -/
def readAll (kind : FeatureKind) : (given : List GivenVector) → Except VectorError
    {vs : List (FeatureVector Float) // vs.length = given.length ∧ ∀ v ∈ vs, v.kind = kind}
  | [] => .ok ⟨[], by simp⟩
  | first :: rest =>
    match h : first.read kind with
    | .error e => .error e
    | .ok v =>
      match readAll kind rest with
      | .error e => .error e
      | .ok ⟨vs, hvs⟩ => .ok ⟨v :: vs, by simpa [kind_of_read h] using hvs⟩

/-- The representation that a vector suggests: mappings and rows of lists are sparse. -/
def suggestedKind : GivenVector → FeatureKind
  | mapping _ | value (.record _) | value (.list (.list _ :: _)) => .sparse
  | _ => .dense

/-- Two keys are the same: numbers are compared by their value. -/
def sameKey (a b : Value) : Bool :=
  match a, b with
  | .null, .null => true
  | .text s, .text t => s == t
  | .float x, .float y => x == y
  | .text _, _ | _, .text _ | .null, _ | _, .null => false
  | a, b =>
    match rational? a, rational? b with
    | some x, some y => x == y
    | _, _ => false
where
  /-- The exact number that a key is, unless it is not finite. -/
  rational? : Value → Option Rat
    | .bool b => some (if b then 1 else 0)
    | .int n => some n
    | .float x =>
      match Binary64.decode x with
      | .finite negative significand exponent =>
        let (n, d) := Binary64.fraction significand exponent
        some (mkRat (Binary64.signed negative n) d)
      | _ => none
    | _ => none

/-- A mapping from pairs: a later pair with the same key replaces the value of an earlier one.
Lists and records cannot be keys. -/
def ofPairs : List (Value × Value) → Except InputError GivenVector :=
  fun pairs => (pairs.foldlM insert []).map mapping
where
  /-- Adds a pair. -/
  insert (items : List (Value × Value)) : Value × Value → Except InputError (List (Value × Value))
    | (.list _, _) | (.record _, _) => .error .wrongType
    | (k, v) =>
      if items.any fun (other, _) => sameKey other k
      then .ok (items.map fun (other, w) => if sameKey other k then (other, v) else (other, w))
      else .ok (items ++ [(k, v)])

end GivenVector

end PottsOracle
