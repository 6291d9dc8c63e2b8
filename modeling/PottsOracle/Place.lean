/-!
# Places in lists

A place is an integer.  From zero on it counts from the start of a list, below zero from the end.
A place stands for an entry, and also for a cut in front of that entry.
-/

namespace PottsOracle.Place

variable {α : Type}

/-- The entry at a place, if the list reaches that far. -/
def get? (xs : List α) (place : Int) : Option α :=
  if 0 ≤ place then xs[place.toNat]?
  else if 0 ≤ place + xs.length then xs[(place + xs.length).toNat]?
  else none

/-- How many of the entries of a list stand in front of a place. -/
def cut (length : Nat) (place : Int) : Nat :=
  if 0 ≤ place then min place.toNat length else (place + length).toNat

@[simp]
theorem cut_natCast (length i : Nat) : cut length i = min i length := by
  simp [cut]

end PottsOracle.Place
