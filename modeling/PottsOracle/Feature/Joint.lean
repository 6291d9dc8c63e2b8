import PottsOracle.Arith.Word
import PottsOracle.Feature.Layout

/-!
# Joint feature vectors

A joint feature vector has the layout of the weights: node vectors are added into its node block and
edge vectors are subtracted from its edge block.  A sparse one collects terms and never merges
them.

* `FeatureLayout.Fits` says which vectors a block can take;
* `FeatureLayout.contribute` puts a vector into a block, and `FeatureLayout.blockScore` weighs it;
* `FeatureLayout.toDense` lists all entries, and `FeatureLayout.score` weighs them.
-/

namespace PottsOracle

/-- Something does not fit a layout. -/
inductive LayoutError where
  | weightCount (found : Nat) (layout : FeatureLayout)
  /-- A dense vector is not as long as its block. -/
  | vectorLength (block : FeatureBlock) (found : Nat) (expected : Int)
  /-- A sparse vector has an index outside its block. -/
  | indexOutside (block : FeatureBlock) (index limit : Int)
  | labelCount (found nodes : Nat)
  deriving DecidableEq, Repr

/-- Why a joint feature vector cannot be built or used. -/
inductive JointError where
  | layout (cause : LayoutError)
  /-- A vector is not in the representation that is expected. -/
  | wrongKind (expected : FeatureKind)
  /-- Two dense vectors are not equally long. -/
  | unequalLengths
  /-- A term has no place among the entries. -/
  | noSuchEntry
  /-- A term has an index, or a layout a length, that does not fit into a word. -/
  | indexTooLarge
  /-- A term has no weight. -/
  | noSuchWeight
  /-- No row of entries has a length: it is negative, or no word counts its bytes. -/
  | badLength
  /-- There is no room for a row of entries. -/
  | outOfMemory
  /-- A single number has no entries that something could be added to. -/
  | noEntries
  /-- Several rows, or a single number, have no score. -/
  | noScore
  deriving DecidableEq, Repr

/-- The message about something that does not fit. -/
def LayoutError.message : LayoutError → String
  | weightCount found layout =>
    s!"Weight vector has {found} entries, expected {layout.total} "
      ++ s!"(edge_dims={layout.edgeDims}, node_dims={layout.nodeDims})"
  | vectorLength block found expected =>
    s!"{block.name} vector has {found} dims, expected {expected}"
  | indexOutside block index limit =>
    s!"{block.name} feature index {index} outside [0, {limit})"
  | labelCount found nodes => s!"Labeling has {found} entries for a graph with {nodes} nodes"

/-- The message about a joint feature vector, if the error has one. -/
def JointError.message? : JointError → Option String
  | layout cause => some cause.message
  | wrongKind _ | unequalLengths | noSuchEntry | indexTooLarge | noSuchWeight | badLength
  | outOfMemory | noEntries | noScore => none

/-- What is left of a joint feature vector after a change, and why the change was not completed. -/
structure Change (K : Type) where
  vector : FeatureVector K
  failure : Option JointError
  deriving DecidableEq, Repr

namespace FeatureBlock

variable {K : Type} [Scalar K]

/-- The sign with which values enter a block: node vectors are added, edge vectors subtracted. -/
def signed : FeatureBlock → K → K
  | node, x => x
  | edge, x => -x

end FeatureBlock

namespace FeatureLayout

variable {K : Type}

/-- A block has an entry for an index. -/
def InBlock (layout : FeatureLayout) (block : FeatureBlock) (index : Int) : Prop :=
  0 ≤ index ∧ index < layout.dims block

instance (layout : FeatureLayout) (block : FeatureBlock) (index : Int) :
    Decidable (layout.InBlock block index) :=
  inferInstanceAs (Decidable (_ ∧ _))

/-- A block can take a vector: a dense one has its length, a sparse one only indices inside it. -/
def Fits (layout : FeatureLayout) (block : FeatureBlock) : FeatureVector K → Prop
  | .dense entries => entries.length = layout.dims block
  | .sparse terms => ∀ term ∈ terms, layout.InBlock block term.1

/-- The reason why a block cannot take a vector: its length, or its first index outside. -/
def misfit? (layout : FeatureLayout) (block : FeatureBlock) :
    FeatureVector K → Option LayoutError
  | .dense entries =>
    if entries.length = layout.dims block then none
    else some (.vectorLength block entries.length (layout.dims block))
  | .sparse terms =>
    (terms.find? fun (i, _) => ¬ layout.InBlock block i).map fun (i, _) =>
      .indexOutside block i (layout.dims block)

theorem misfit?_eq_none_iff {layout : FeatureLayout} {block : FeatureBlock}
    {v : FeatureVector K} : layout.misfit? block v = none ↔ layout.Fits block v := by
  cases v with
  | dense entries => simp [misfit?, Fits]
  | sparse terms => simp [misfit?, Fits]

variable [Scalar K]

/-- The joint feature vector to which nothing has contributed. -/
def zeros (layout : FeatureLayout) : FeatureKind → FeatureVector K
  | .dense => .dense (List.replicate layout.total.toNat 0)
  | .sparse => .sparse []

/-- No row has as many entries: its bytes, eight for every entry, would not be counted by a word
with a sign. -/
def maxLength : Nat := Nat.pow 2 60

/-- Longer rows than this one are not made for want of memory. -/
def roomyLength : Nat := Nat.pow 2 32

/-- Why there can be no row with an entry for every place of a layout. -/
def lengthFailure? (layout : FeatureLayout) : Option JointError :=
  if layout.total < 0 ∨ maxLength ≤ layout.total then some .badLength
  else if roomyLength < layout.total then some .outOfMemory
  else none

/-- The joint feature vector to start with.  A dense one has to have a length that is possible. -/
def start (layout : FeatureLayout) (kind : FeatureKind) : Except JointError (FeatureVector K) :=
  match kind with
  | .dense => layout.lengthFailure?.elim (.ok (layout.zeros .dense)) .error
  | .sparse => .ok (layout.zeros .sparse)

/-! ## Contributions -/

/-- Adds entries to a range of equally many entries.  A single entry is added to all of a range. -/
def addEntries? (range entries : List K) : Option (List K) :=
  if range.length = entries.length then some (List.zipWith (· + ·) range entries)
  else match entries with
    | [x] => some (range.map (· + x))
    | _ => none

/-- Adds entries into a block: the node block starts where the edge block ends. -/
def addToBlock? (layout : FeatureLayout) (block : FeatureBlock) (all entries : List K) :
    Option (List K) :=
  let boundary := layout.boundary all.length
  match block with
  | .node => (addEntries? (all.drop boundary) entries).map (all.take boundary ++ ·)
  | .edge => (addEntries? (all.take boundary) entries).map (· ++ all.drop boundary)

/-- Puts a vector into a block of a joint feature vector.  A dense vector that does not fit changes
nothing; of a sparse one the terms before the first misfit have been added. -/
def contribute (layout : FeatureLayout) (block : FeatureBlock) (joint v : FeatureVector K) :
    Change K :=
  let failure := (layout.misfit? block v).map JointError.layout
  match joint, v with
  | .dense all, .dense entries =>
    if failure.isSome then ⟨joint, failure⟩
    else match layout.addToBlock? block all (entries.map block.signed) with
      | some sums => ⟨.dense sums, none⟩
      | none => ⟨joint, some .unequalLengths⟩
  | .sparse terms, .sparse added =>
    let fitting := added.takeWhile fun (i, _) => layout.InBlock block i
    ⟨.sparse (terms ++ fitting.map fun (i, x) => (i + layout.offset block, block.signed x)),
      failure⟩
  | .sparse _, .dense [] => ⟨joint, none⟩
  | .sparse _, .dense (_ :: _) => ⟨joint, some (.wrongKind .sparse)⟩
  | .dense _, .sparse _ => ⟨joint, some (.wrongKind .dense)⟩

/-- Puts vectors into their blocks, one after the other, up to the first that fails. -/
def contributeAll (layout : FeatureLayout) (joint : FeatureVector K) :
    List (FeatureBlock × FeatureVector K) → Except JointError (FeatureVector K)
  | [] => .ok joint
  | (block, v) :: rest =>
    match layout.contribute block joint v with
    | ⟨_, some e⟩ => .error e
    | ⟨joint, none⟩ => layout.contributeAll joint rest

/-! ## Weights and scores -/

/-- There is a weight for every entry of the layout. -/
def checkWeights (layout : FeatureLayout) (weights : List K) : Except JointError Unit :=
  if weights.length = layout.total then .ok ()
  else .error (.layout (.weightCount weights.length layout))

/-- The weights of a block. -/
def blockWeights (layout : FeatureLayout) (block : FeatureBlock) (weights : List K) : List K :=
  match block with
  | .node => weights.drop (layout.boundary weights.length)
  | .edge => weights.take (layout.boundary weights.length)

/-- The weight at an index; a negative one counts from the end.  An index without a weight is too
large if only a word without a sign holds it. -/
def weightAt (weights : List K) (index : Int) : Except JointError K :=
  match Place.get? weights index with
  | some w => .ok w
  | none =>
    .error (if Word.HoldsUnsigned index ∧ ¬ Word.HoldsSigned index then .indexTooLarge
      else .noSuchWeight)

/-- A term times its weight; its index must lie inside its block. -/
def termScore (layout : FeatureLayout) (block : FeatureBlock) (weights : List K)
    (term : Int × K) : Except JointError K :=
  if layout.InBlock block term.1 then
    (weightAt weights (term.1 + layout.offset block)).map (· * term.2)
  else .error (.layout (.indexOutside block term.1 (layout.dims block)))

/-- The score of a vector under the weights of its block. -/
def blockScore (layout : FeatureLayout) (block : FeatureBlock) (weights : List K) :
    FeatureVector K → Except JointError K
  | .dense entries =>
    let weights := layout.blockWeights block weights
    if (entries.length : Int) ≠ layout.dims block then
      .error (.layout (.vectorLength block entries.length (layout.dims block)))
    else if weights.length = entries.length then .ok (Scalar.dot weights entries)
    else .error .unequalLengths
  | .sparse terms => (terms.mapM (layout.termScore block weights)).map Scalar.total

/-- Why some terms cannot be spread over the entries of a layout. -/
def spreadFailure? (layout : FeatureLayout) (terms : List (Int × K)) : Option JointError :=
  if layout.total < 0 then some .badLength
  else if terms.any fun (i, _) => ¬ Word.Holds i then some .indexTooLarge
  else if terms.all fun (i, _) => 0 ≤ i ∧ i < layout.total then none
  else some .noSuchEntry

/-- Terms spread over the entries of a layout; those for the same entry are added up. -/
def spread (layout : FeatureLayout) (terms : List (Int × K)) : List K :=
  (List.range layout.total.toNat).map (FeatureVector.sparse terms).coordinate

/-- All entries of a joint feature vector. -/
def toDense (layout : FeatureLayout) : FeatureVector K → Except JointError (List K)
  | .dense entries => .ok entries
  | .sparse terms => (layout.spreadFailure? terms).elim (.ok (layout.spread terms)) .error

/-- The score of a joint feature vector: the sum of its entries, each times its weight. -/
def score (layout : FeatureLayout) (joint : FeatureVector K) (weights : List K) :
    Except JointError K := do
  layout.checkWeights weights
  match joint with
  | .dense entries =>
    if entries.length = weights.length then .ok (Scalar.dot entries weights)
    else .error .unequalLengths
  | .sparse terms =>
    (terms.mapM fun (i, x) => (weightAt weights i).map (· * x)).map Scalar.total

end FeatureLayout

end PottsOracle
