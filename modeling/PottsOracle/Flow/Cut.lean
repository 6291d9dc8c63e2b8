import PottsOracle.Flow.Route

/-!
# Minimum cuts

A network has a capacity for every ordered pair of vertices, a source and a sink.  A cut is a set of
vertices that holds the source and not the sink; its capacity is the sum over the pairs that lead
out of it.

While some route leads from the source to the sink, the least capacity on it is pushed along it: it
is taken from every pair on the route and given to the reversed pair.  A push lowers the capacities
of all cuts by the same amount.  In the end there is no route, and the vertices that cannot reach
the sink are the largest cut of least capacity.
-/

namespace PottsOracle

/-- A network on `n` vertices. -/
structure Network (n : Nat) where
  capacity : Grid n
  source : Fin n
  sink : Fin n
  source_ne_sink : source ≠ sink

namespace Network

variable {n : Nat}

/-- The pairs of consecutive vertices on a route from a vertex. -/
def arcsFrom (u : Fin n) (route : List (Fin n)) : List (Fin n × Fin n) := (u :: route).zip route

/-- The least capacity on a route; a route without pairs has none. -/
def bottleneck (capacity : Grid n) (arcs : List (Fin n × Fin n)) : Nat :=
  ((arcs.map fun (u, v) => capacity.get u v).min?).getD 0

/-- Takes an amount from a pair and gives it to the reversed pair. -/
def pushArc (amount : Nat) (capacity : Grid n) (arc : Fin n × Fin n) : Grid n :=
  let (u, v) := arc
  let rest := capacity.set u v (capacity.get u v - amount)
  rest.set v u (rest.get v u + amount)

/-- Pushes an amount along pairs, one after the other. -/
def push (amount : Nat) (capacity : Grid n) (arcs : List (Fin n × Fin n)) : Grid n :=
  arcs.foldl (pushArc amount) capacity

/-- Pushes as much as possible along a route from the source. -/
def augment (source : Fin n) (capacity : Grid n) (route : List (Fin n)) : Grid n :=
  let arcs := arcsFrom source route
  push (bottleneck capacity arcs) capacity arcs

/-- Augments along found routes, at most `pushes` times. -/
def saturate (source sink : Fin n) : Nat → Grid n → Grid n
  | 0, capacity => capacity
  | pushes + 1, capacity =>
    match (Routes.search capacity sink).get? source with
    | none => capacity
    | some route => saturate source sink pushes (augment source capacity route)

/-- The capacity of all pairs that lead out of a vertex. -/
def leaving (capacity : Grid n) (u : Fin n) : Nat :=
  ((List.finRange n).map (capacity.get u)).foldl (· + ·) 0

/-- The capacities that are left when no route leads from the source to the sink any more.  Every
push takes at least one unit from the pairs that lead out of the source. -/
def residual (net : Network n) : Grid n :=
  saturate net.source net.sink (leaving net.capacity net.source) net.capacity

/-- For every vertex whether it is on the source's side of the largest minimum cut. -/
def sourceSide (net : Network n) : List Bool :=
  let routes := Routes.search net.residual net.sink
  (List.finRange n).map fun u => !routes.reaches u

end Network

end PottsOracle
