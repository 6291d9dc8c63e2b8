import PottsOracle.Arith.Scalar

/-!
# Draws

Random numbers come from two sources, one of uniform and one of normal numbers.  A source is an
endless sequence with a count of the numbers that have been drawn; what is drawn next depends on
nothing else.
-/

namespace PottsOracle

/-- An endless sequence of numbers with the count of those that have been drawn. -/
structure DrawSource (K : Type) where
  number : Nat → K
  drawn : Nat

namespace DrawSource

variable {K : Type}

/-- The source that goes through a list again and again. -/
def ofCycle [Zero K] (numbers : List K) : DrawSource K :=
  let table := numbers.toArray
  ⟨fun k => table.getD (k % table.size) 0, 0⟩

/-- The next numbers. -/
def next (source : DrawSource K) (count : Nat) : List K :=
  (List.range count).map fun k => source.number (source.drawn + k)

/-- The source after some draws. -/
def skip (source : DrawSource K) (count : Nat) : DrawSource K :=
  { source with drawn := source.drawn + count }

/-- The next numbers, row by row. -/
def nextRows (source : DrawSource K) (rows width : Nat) : List (List K) :=
  (List.range rows).map fun i => (source.skip (i * width)).next width

end DrawSource

/-- Both sources. -/
structure Draws (K : Type) where
  uniform : DrawSource K
  normal : DrawSource K

end PottsOracle
