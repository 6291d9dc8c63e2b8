import PottsOracle.Flow.Cut
import PottsOracle.Potts.Model

/-!
# The network of a Potts model

A labeling of the nodes is a cut: true nodes are on the side of the source.  A positive potential is
the capacity of the pair that is cut if its node is false, the size of a negative one that of the
pair that is cut if its node is true, and a weight is the capacity between its two places in both
directions.

Capacities are whole numbers.  The largest of them is scaled to 2^40, and none that is not zero is
rounded below one, so that small potentials keep their sign.  Where couplings are parallel, the last
one that has a weight sets the capacity.
-/

namespace PottsOracle

/-- A capacity between two places.  The nodes are the places from zero on; the source and the sink
follow them. -/
structure Arc where
  tail : Int
  head : Int
  capacity : Nat
  deriving DecidableEq, Repr

namespace PottsModel

variable {K : Type} [Scalar K]

/-- A positive capacity as a whole number, at least one. -/
def quantised (scale capacity : K) : Except Unroundable Nat :=
  (Scalar.nearest (capacity * scale)).map fun n => Nat.max 1 n.toNat

/-- The largest size of a potential or a weight. -/
def maxCapacity (m : PottsModel K) : K :=
  Scalar.larger ((Scalar.maximum? (m.potentials.map Scalar.abs)).getD 0)
    ((Scalar.maximum? (m.couplings.map (·.weight))).getD 0)

/-- What the largest capacity is scaled to. -/
def resolution : Nat := Nat.pow 2 40

/-- The factor by which capacities are scaled. -/
def scale (m : PottsModel K) : K := Scalar.ofNat resolution / m.maxCapacity

/-- The place of the source. -/
def source (m : PottsModel K) : Int := m.order

/-- The place of the sink. -/
def sink (m : PottsModel K) : Int := m.order + 1

/-- The arc of a node: from the source if its potential is positive, to the sink if it is
negative. -/
def nodeArcs (m : PottsModel K) (i : Nat) (u : K) : Except Unroundable (List Arc) :=
  if Scalar.eq u 0 then .ok []
  else (quantised m.scale (Scalar.abs u)).map fun capacity =>
    if Scalar.lt 0 u then [⟨m.source, i, capacity⟩] else [⟨i, m.sink, capacity⟩]

/-- The arcs of a coupling; one without weight, or of a place with itself, has none. -/
def couplingArcs (m : PottsModel K) (c : Coupling K) : Except Unroundable (List Arc) :=
  if Scalar.eq c.weight 0 ∨ c.first = c.second then .ok []
  else (quantised m.scale c.weight).map fun capacity =>
    [⟨c.first, c.second, capacity⟩, ⟨c.second, c.first, capacity⟩]

/-- The arcs of all nodes. -/
def allNodeArcs (m : PottsModel K) : Except Unroundable (List Arc) :=
  (m.potentials.zipIdx.mapM fun (u, i) => m.nodeArcs i u).map List.flatten

/-- All arcs, those of the nodes first. -/
def arcs (m : PottsModel K) : Except Unroundable (List Arc) := do
  let nodes ← m.allNodeArcs
  let couplings ← m.couplings.mapM m.couplingArcs
  .ok (nodes ++ couplings.flatten)

/-- The arcs that lead out of a place. -/
def leaving (arcs : List Arc) (tail : Int) : List Arc := arcs.filter (·.tail = tail)

/-- The capacity of arcs out of one place to another place: that of the last arc that leads
there. -/
def capacityTo (arcs : List Arc) (head : Int) : Nat :=
  ((arcs.reverse.find? (·.head = head)).map (·.capacity)).getD 0

/-- The places of arcs that are neither nodes nor source nor sink, each one once. -/
def strayPlaces (m : PottsModel K) (arcs : List Arc) : List Int :=
  ((arcs.flatMap fun a => [a.tail, a.head]).filter fun v => ¬ (0 ≤ v ∧ v ≤ m.sink)).eraseDups

/-- The place of a vertex: nodes, source, sink, and then the stray places. -/
def placeOf (m : PottsModel K) (stray : List Int) (vertex : Nat) : Int :=
  if vertex < m.order + 2 then vertex else stray.getD (vertex - (m.order + 2)) 0

/-- The network of the arcs. -/
def network (m : PottsModel K) (arcs : List Arc) :
    Network (m.order + 2 + (m.strayPlaces arcs).length) where
  capacity :=
    let stray := m.strayPlaces arcs
    Grid.ofRows (fun u => leaving arcs (m.placeOf stray u)) fun out v =>
      capacityTo out (m.placeOf stray v)
  source := ⟨m.order, by omega⟩
  sink := ⟨m.order + 1, by omega⟩
  source_ne_sink := by simp

end PottsModel

end PottsOracle
