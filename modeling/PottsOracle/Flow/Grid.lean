/-!
# Square tables

A table with a natural number for every pair of vertices `0, …, n - 1`.
-/

namespace PottsOracle

/-- A table with `n` rows and `n` columns. -/
structure Grid (n : Nat) where
  rows : Vector (Vector Nat n) n

namespace Grid

variable {n : Nat}

/-- The number for a pair. -/
def get (g : Grid n) (u v : Fin n) : Nat := (g.rows[u])[v]

/-- The table whose rows are made from something that is worked out once for every row. -/
def ofRows {α : Type} (row : Fin n → α) (f : α → Fin n → Nat) : Grid n :=
  ⟨Vector.ofFn fun u => Vector.ofFn (f (row u))⟩

/-- Replaces the number for a pair. -/
def set (g : Grid n) (u v : Fin n) (x : Nat) : Grid n := ⟨g.rows.set u ((g.rows[u]).set v x)⟩

@[simp]
theorem get_ofRows {α : Type} (row : Fin n → α) (f : α → Fin n → Nat) (u v : Fin n) :
    (ofRows row f).get u v = f (row u) v := by
  simp [get, ofRows]

theorem get_set (g : Grid n) (u v a b : Fin n) (x : Nat) :
    (g.set u v x).get a b = if u = a ∧ v = b then x else g.get a b := by
  by_cases hu : u = a
  · subst hu
    by_cases hv : v = b
    · subst hv; simp [get, set]
    · have : (v : Nat) ≠ b := fun h => hv (Fin.ext h)
      simp [get, set, hv, this]
  · have : (u : Nat) ≠ a := fun h => hu (Fin.ext h)
    simp [get, set, hu, this]

end Grid

end PottsOracle
