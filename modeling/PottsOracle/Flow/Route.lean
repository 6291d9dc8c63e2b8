import PottsOracle.Flow.Grid

/-!
# Routes to a vertex

In a table of capacities there is a step from `u` to `v` if the capacity of the pair is positive.
`Routes.search` finds all vertices from which steps lead to a given target, each with one route.
It works in rounds: a round gives a route to every vertex that has a step to a vertex with one, and
the search is over when a round finds nothing new.
-/

namespace PottsOracle

/-- For every vertex the vertices on a route from it to the target, without the vertex itself. -/
structure Routes (n : Nat) where
  table : Vector (Option (List (Fin n))) n

namespace Routes

variable {n : Nat}

/-- The route of a vertex. -/
def get? (routes : Routes n) (u : Fin n) : Option (List (Fin n)) := routes.table.get u

/-- A vertex has a route. -/
def reaches (routes : Routes n) (u : Fin n) : Bool := (routes.get? u).isSome

/-- The number of vertices with a route. -/
def count (routes : Routes n) : Nat := (List.finRange n).countP routes.reaches

/-- Only the target itself has a route. -/
def start (target : Fin n) : Routes n :=
  ⟨Vector.ofFn fun u => if u = target then some [] else none⟩

/-- The route of a vertex after one more round. -/
def route? (capacity : Grid n) (routes : Routes n) (u : Fin n) : Option (List (Fin n)) :=
  match routes.get? u with
  | some route => some route
  | none => (List.finRange n).findSome? fun v =>
      if 0 < capacity.get u v then (routes.get? v).map (v :: ·) else none

/-- One round. -/
def extend (capacity : Grid n) (routes : Routes n) : Routes n :=
  ⟨Vector.ofFn (routes.route? capacity)⟩

/-- At most `rounds` rounds, until one of them finds nothing new. -/
def extendAll (capacity : Grid n) : Nat → Routes n → Routes n
  | 0, routes => routes
  | rounds + 1, routes =>
    let next := routes.extend capacity
    if next.count = routes.count then routes else extendAll capacity rounds next

/-- All routes to a target.  Every round but the last finds a new vertex, so that there are at most
as many as vertices. -/
def search (capacity : Grid n) (target : Fin n) : Routes n := extendAll capacity n (start target)

@[simp]
theorem get?_start (target u : Fin n) :
    (start target).get? u = if u = target then some [] else none :=
  Vector.getElem_ofFn u.isLt

@[simp]
theorem get?_extend (capacity : Grid n) (routes : Routes n) (u : Fin n) :
    (routes.extend capacity).get? u = routes.route? capacity u :=
  Vector.getElem_ofFn u.isLt

end Routes

end PottsOracle
