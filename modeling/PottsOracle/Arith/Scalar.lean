/-!
# Scalars

Features, weights and scores are numbers of one scalar type.  The library is written once over the
class `Scalar`, and has two readings: binary floating point, which is what the program computes
with, and the rationals, over which its laws are exact.

A scalar type has the four operations, a strict order and an equality that are decided, and a
rounding to the nearest integer that may refuse.
-/

namespace PottsOracle

/-- Why a number has no nearest integer. -/
inductive Unroundable where
  | notANumber
  | infinite
  deriving DecidableEq, Repr

/-- A number type with decided comparisons.  No law is assumed: in floating point a number may
differ from itself, and neither of two numbers need be the smaller. -/
class Scalar (K : Type) extends Zero K, One K, Add K, Sub K, Neg K, Mul K, Div K where
  /-- Strictly less than. -/
  lt : K → K → Bool
  /-- Equal as numbers. -/
  eq : K → K → Bool
  /-- The number without its sign. -/
  abs : K → K
  /-- The scalar nearest to a natural number. -/
  ofNat : Nat → K
  /-- The nearest integer; a half goes to the even neighbour. -/
  nearest : K → Except Unroundable Int

namespace Scalar

variable {K : Type} [Scalar K]

/-- A number that differs from itself is no number. -/
def isNaN (x : K) : Bool := !eq x x

/-- Less than or equal. -/
def le (x y : K) : Bool := lt x y || eq x y

/-- The second number if it is strictly larger, else the first. -/
def larger (x y : K) : K := if lt x y then y else x

/-- The larger of two numbers; what is no number wins. -/
def max (x y : K) : K := if isNaN x then x else if isNaN y then y else larger x y

/-- The smaller of two numbers; what is no number wins. -/
def min (x y : K) : K :=
  if isNaN x then x else if isNaN y then y else if lt y x then y else x

/-- The largest entry of a list, if it has one. -/
def maximum? : List K → Option K
  | [] => none
  | x :: xs => some (xs.foldl max x)

/-- The smallest entry of a list, if it has one. -/
def minimum? : List K → Option K
  | [] => none
  | x :: xs => some (xs.foldl min x)

/-- The sum of a list from left to right, starting with zero. -/
def total (xs : List K) : K := xs.foldl (· + ·) 0

/-- The sum of the products of two lists, entry by entry.  A lone product is not added to zero, so
that it stays a negative zero if it is one. -/
def dot (xs ys : List K) : K :=
  match xs, ys with
  | [x], [y] => x * y
  | xs, ys => total (List.zipWith (· * ·) xs ys)

end Scalar

end PottsOracle
