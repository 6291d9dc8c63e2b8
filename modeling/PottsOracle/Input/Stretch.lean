import PottsOracle.Input.Block

/-!
# Stretching blocks

Blocks of different shapes are used side by side after they have been stretched to a common shape.
Shapes are aligned at their last extents, missing extents in front count as one, and an extent of
one stretches to any other: what lies along it is repeated.
-/

namespace PottsOracle

namespace Block

variable {α : Type}

/-- A shape with extents of one in front, up to a number of extents. -/
def padded (extents : Nat) (shape : List Nat) : List Nat :=
  List.replicate (extents - shape.length) 1 ++ shape

/-- The extent that two extents stretch to: an extent of one stretches to any other. -/
def commonExtent? (a b : Nat) : Option Nat :=
  if a = b ∨ b = 1 then some a else if a = 1 then some b else none

/-- The shape that two shapes stretch to. -/
def commonShape? (s t : List Nat) : Option (List Nat) :=
  let extents := max s.length t.length
  ((padded extents s).zip (padded extents t)).mapM fun (a, b) => commonExtent? a b

/-- The entries of a block whose extents of one are repeated up to those of another shape. -/
def repeated : (target shape : List Nat) → List α → List α
  | count :: target, own :: shape, entries =>
    let rows := ((parts (capacity shape) own entries).map (repeated target shape)).flatten
    if own = count then rows else (List.replicate count rows).flatten
  | _, _, entries => entries

/-- The entries of a block that is stretched to a shape. -/
def stretched (b : Block α) (shape : List Nat) : List α :=
  repeated shape (padded shape.length b.shape) b.entries

end Block

end PottsOracle
