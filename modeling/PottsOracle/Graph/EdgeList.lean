/-!
# Edge lists

The edges of an undirected graph on the nodes `0, …, n - 1`, as pairs of endpoints in the order and
orientation in which they were given.  No two of them join the same nodes.  An edge may join a node
to itself.
-/

namespace PottsOracle

/-- Why pairs are no edge list. -/
inductive EdgeListError where
  /-- Some endpoint is no node. -/
  | endpointOutside (nodes : Nat)
  /-- An edge joins two nodes that an earlier edge joins already. -/
  | duplicate (i j : Nat)
  deriving DecidableEq, Repr

/-- The message about an edge list. -/
def EdgeListError.message : EdgeListError → String
  | endpointOutside nodes => s!"Edge endpoints must lie in [0, {nodes})"
  | duplicate i j => s!"Duplicate edge between nodes {i} and {j}"

/-- Two pairs join the same nodes. -/
def SameEnds (e f : Nat × Nat) : Prop := e = f ∨ e = (f.2, f.1)

instance (e f : Nat × Nat) : Decidable (SameEnds e f) := inferInstanceAs (Decidable (_ ∨ _))

/-- The edges of a graph with `n` nodes. -/
structure EdgeList (n : Nat) where
  /-- The endpoints of every edge. -/
  pairs : List (Nat × Nat)
  lt_of_mem : ∀ e ∈ pairs, e.1 < n ∧ e.2 < n
  distinct : pairs.Pairwise fun e f => ¬ SameEnds e f

namespace EdgeList

/-- The two ends of a pair in order. -/
def key (e : Nat × Nat) : Nat × Nat := (min e.1 e.2, max e.1 e.2)

/-- The first pair that joins the same nodes as a pair before it; `seen` are the keys of the pairs
before. -/
def firstRepeat? (seen : List (Nat × Nat)) : List (Nat × Nat) → Option (Nat × Nat)
  | [] => none
  | e :: rest => if key e ∈ seen then some e else firstRepeat? (key e :: seen) rest

theorem key_eq_key_iff {e f : Nat × Nat} : key e = key f ↔ SameEnds e f := by
  simp only [key, SameEnds, Prod.ext_iff]
  omega

/-- No pair is a repeat if and only if no two pairs join the same nodes. -/
theorem firstRepeat?_eq_none_iff {seen pairs : List (Nat × Nat)} :
    firstRepeat? seen pairs = none ↔
      (∀ e ∈ pairs, key e ∉ seen) ∧ pairs.Pairwise fun e f => ¬ SameEnds e f := by
  induction pairs generalizing seen with
  | nil => simp [firstRepeat?]
  | cons e rest ih =>
    rw [firstRepeat?]
    split
    · rename_i hseen
      simp [hseen]
    · rename_i hseen
      simp only [ih, List.mem_cons, not_or, forall_eq_or_imp, List.pairwise_cons, hseen,
        not_false_eq_true, true_and, ← key_eq_key_iff, eq_comm (a := key e)]
      constructor
      · rintro ⟨hall, hrest⟩
        exact ⟨fun f hf => (hall f hf).2, fun f hf => (hall f hf).1, hrest⟩
      · rintro ⟨hold, hfirst, hrest⟩
        exact ⟨fun f hf => ⟨hfirst f hf, hold f hf⟩, hrest⟩

/-- A pair of integers whose two parts are nodes. -/
def InRange (n : Nat) (e : Int × Int) : Prop := 0 ≤ e.1 ∧ e.1 < n ∧ 0 ≤ e.2 ∧ e.2 < n

instance (n : Nat) (e : Int × Int) : Decidable (InRange n e) :=
  inferInstanceAs (Decidable (_ ∧ _ ∧ _ ∧ _))

/-- The edge list of some pairs of integers. -/
def ofPairs (n : Nat) (pairs : List (Int × Int)) : Except EdgeListError (EdgeList n) :=
  if h : ∀ e ∈ pairs, InRange n e then
    let edges := pairs.map fun e => (e.1.toNat, e.2.toNat)
    match hrepeat : firstRepeat? [] edges with
    | some (i, j) => .error (.duplicate i j)
    | none => .ok ⟨edges, by
        intro e he
        obtain ⟨p, hp, rfl⟩ := List.mem_map.1 he
        have := h p hp
        simp only [InRange] at this
        constructor <;> dsimp only <;> omega, (firstRepeat?_eq_none_iff.1 hrepeat).2⟩
  else .error (.endpointOutside n)

/-- The same edges on equally many nodes. -/
def cast {m n : Nat} (h : m = n) (edges : EdgeList m) : EdgeList n :=
  ⟨edges.pairs, h ▸ edges.lt_of_mem, edges.distinct⟩

end EdgeList

/-- A node that is joined to another one, which is its neighbour, by the edge of a number.  Edges are
counted from one. -/
structure Incidence where
  node : Nat
  neighbour : Nat
  edge : Nat
  deriving DecidableEq, Repr

/-- A square matrix in compressed rows: where each row starts and where the last one ends, the column
of every entry, and the entry.  Rows and columns are nodes, an entry is the number of the edge between
them, and the columns of a row are in order. -/
structure Adjacency where
  starts : List Nat
  neighbours : List Nat
  edges : List Nat
  deriving DecidableEq, Repr

namespace Adjacency

/-- The incidences of a node, sorted by neighbour. -/
def sortedAt (incidences : List Incidence) (i : Nat) : List Incidence :=
  (incidences.filter (·.node = i)).mergeSort fun p q => p.neighbour ≤ q.neighbour

/-- The incidences of `n` nodes in compressed rows.  No place of the matrix may have two of them. -/
def ofIncidences (n : Nat) (incidences : List Incidence) : Adjacency :=
  let rows := (List.range n).map (sortedAt incidences)
  { starts := (rows.map List.length).scanl (· + ·) 0
    neighbours := rows.flatten.map (·.neighbour)
    edges := rows.flatten.map (·.edge) }

/-- The entries of a row with their columns. -/
def entries (a : Adjacency) (i : Nat) : List (Nat × Nat) :=
  ((a.neighbours.zip a.edges).take (a.starts.getD (i + 1) 0)).drop (a.starts.getD i 0)

/-- The neighbours of a node with the numbers of the edges, counted from zero. -/
def row (a : Adjacency) (i : Nat) : List (Nat × Nat) := (a.entries i).map fun (j, e) => (j, e - 1)

/-- The number of neighbours of a node. -/
def degree (a : Adjacency) (i : Nat) : Nat := a.starts.getD (i + 1) 0 - a.starts.getD i 0

/-- The entry of a row on the diagonal, zero if there is none. -/
def diagonal (a : Adjacency) (i : Nat) : Nat :=
  (((a.entries i).filter (·.1 = i)).map (·.2)).foldl (· + ·) 0

end Adjacency

namespace EdgeList

variable {n : Nat}

/-- Every edge from its first end to the second one, and then every edge between different nodes the
other way. -/
def incidences (edges : EdgeList n) : List Incidence :=
  let numbered := edges.pairs.zipIdx 1
  let between := numbered.filter fun ((a, b), _) => a ≠ b
  (numbered.map fun ((a, b), e) => ⟨a, b, e⟩) ++ between.map fun ((a, b), e) => ⟨b, a, e⟩

/-- The adjacency of an edge list. -/
def adjacency (edges : EdgeList n) : Adjacency := .ofIncidences n edges.incidences

/-- The number of neighbours of a node. -/
def degree (edges : EdgeList n) (i : Nat) : Nat := edges.adjacency.degree i

/-- Some node is its own neighbour. -/
def hasSelfLoop (edges : EdgeList n) : Bool :=
  let adjacency := edges.adjacency
  (List.range n).any fun i => adjacency.diagonal i ≠ 0

end EdgeList

end PottsOracle
