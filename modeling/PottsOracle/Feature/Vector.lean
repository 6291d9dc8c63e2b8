import PottsOracle.Arith.Scalar

/-!
# Feature vectors

The features of a node or an edge, in one of two representations.  A dense vector lists all its
entries.  A sparse vector lists pairs of an index and a value; the order of the pairs is kept, and
an index may repeat, in which case its values add up.
-/

namespace PottsOracle

/-- The representation that all vectors of a graph share. -/
inductive FeatureKind where
  | dense
  | sparse
  deriving DecidableEq, Repr

/-- The name of a representation. -/
def FeatureKind.name : FeatureKind → String
  | .dense => "dense"
  | .sparse => "sparse"

/-- The features of a node or an edge. -/
inductive FeatureVector (K : Type) where
  /-- All entries, from index zero on. -/
  | dense (entries : List K)
  /-- Some entries with their indices, in any order. -/
  | sparse (terms : List (Int × K))
  deriving DecidableEq, Repr

namespace FeatureVector

variable {K : Type}

/-- The representation of a vector. -/
def kind : FeatureVector K → FeatureKind
  | dense _ => .dense
  | sparse _ => .sparse

/-- The number of stored entries. -/
def size : FeatureVector K → Nat
  | dense entries => entries.length
  | sparse terms => terms.length

/-- One more than the largest index in use: the length of a dense vector, and zero for a sparse
vector without terms.  Negative indices can make it zero or less. -/
def extent : FeatureVector K → Int
  | dense entries => entries.length
  | sparse [] => 0
  | sparse ((i, _) :: terms) => (terms.map (·.1)).foldl max i + 1

/-- Some index of a sparse vector is negative. -/
def hasNegativeIndex : FeatureVector K → Bool
  | dense _ => false
  | sparse terms => terms.any fun (i, _) => i < 0

/-- Some entry is negative.  A dense vector is judged by its smallest entry, so it passes if one of
its entries is no number. -/
def hasNegativeEntry [Scalar K] : FeatureVector K → Bool
  | dense entries => (Scalar.minimum? entries).any (Scalar.lt · 0)
  | sparse terms => terms.any fun (_, x) => Scalar.lt x 0

/-- The entry at an index: the sum of all values that stand for it. -/
def coordinate [Scalar K] (v : FeatureVector K) (k : Nat) : K :=
  match v with
  | dense entries => entries.getD k 0
  | sparse terms => Scalar.total ((terms.filter fun (i, _) => i == k).map (·.2))

/-- The vector as a sparse one: a term for every entry that is not zero. -/
def nonzeroTerms [Scalar K] (entries : List K) : List (Int × K) :=
  entries.zipIdx.filterMap fun (x, k) => if Scalar.eq x 0 then none else some ((k : Int), x)

end FeatureVector

end PottsOracle
