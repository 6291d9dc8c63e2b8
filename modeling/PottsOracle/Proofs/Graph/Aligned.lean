import PottsOracle.Graph.Given
import PottsOracle.Potts.Model
import PottsOracle.Proofs.Graph.Neighbourhood
import PottsOracle.Proofs.Input.Nesting

/-!
# A vector for every edge

A graph is aligned if every edge has a vector of its own (`LabeledGraph.IsAligned`).  Whether it is
hangs on two counts alone, the one of the edges and the one of the vectors.  If there are fewer vectors
than edges, some neighbours come without a vector; if the counts differ at all, no Potts model can be
made.

A given graph is counted before its edges are read.  What is counted are entries, what is read are
numbers, two for every edge.  So the graph is aligned if and only if every entry holds two numbers
(`GivenGraph.read_isAligned_iff`), and `GivenGraph.mergedPairs` is read without an error but is not
aligned.
-/

namespace PottsOracle

/-! ## Counts -/

namespace EdgeList

variable {n : Nat} {edges : EdgeList n}

/-- The adjacency holds the number of every edge, counted from one, and no other numbers. -/
lemma mem_adjacency_edges_iff {number : Nat} :
    number ∈ edges.adjacency.edges ↔ 1 ≤ number ∧ number ≤ edges.pairs.length := by
  have hmem : number ∈ edges.adjacency.edges ↔
      ∃ p ∈ edges.incidences, p.node < n ∧ p.edge = number := by
    simp [adjacency, Adjacency.ofIncidences, Adjacency.mem_sortedAt_iff, and_left_comm, and_assoc]
  rw [hmem]
  constructor
  · rintro ⟨⟨i, j, e⟩, hp, -, rfl⟩
    obtain ⟨hone, hk⟩ := mem_incidences_iff.1 hp
    have hlt := hk.lt_length
    exact ⟨hone, by dsimp only; omega⟩
  · rintro ⟨hone, hle⟩
    have hlt : number - 1 < edges.pairs.length := by omega
    exact ⟨_, mem_incidences_iff.2 ⟨hone, Or.inl (List.getElem?_eq_getElem hlt)⟩,
      (edges.lt_of_mem _ (List.getElem_mem hlt)).1, rfl⟩

end EdgeList

namespace PottsModel

variable {K : Type}

lemma map_weight_couplingsOf {pairs : List (ℤ × ℤ)} {weights : List K}
    (h : pairs.length = weights.length) : (couplingsOf pairs weights).map (·.weight) = weights := by
  have hsnd := List.map_snd_zip h.ge
  rw [List.zip_eq_zipWith, List.map_zipWith] at hsnd
  rw [couplingsOf, List.map_zipWith]
  exact hsnd

/-- Weights that are not negative make a model if there are as many pairs. -/
lemma exists_ofLists_iff [Scalar K] (potentials : List K) {pairs : List (ℤ × ℤ)} {weights : List K}
    (h : ¬ HasNegative weights) :
    (∃ m, ofLists potentials pairs weights = .ok m) ↔ pairs.length = weights.length := by
  constructor
  · rintro ⟨m, hm⟩
    by_contra hne
    rw [ofLists, if_pos hne] at hm
    cases hm
  · intro hlength
    have hnot : ¬ HasNegative ((couplingsOf pairs weights).map (·.weight)) := by
      rwa [map_weight_couplingsOf hlength]
    rw [ofLists, if_neg (not_not.2 hlength), dif_neg hnot]
    exact ⟨_, rfl⟩

end PottsModel

namespace LabeledGraph

variable {K : Type} {g : LabeledGraph K}

/-- All neighbours of all nodes come with a vector if there are not fewer vectors than edges. -/
lemma forall_exists_neighbours?_iff :
    (∀ i < g.order, ∃ row, g.neighbours? i = some row) ↔
      g.edges.pairs.length ≤ g.edgeVectors.length := by
  constructor
  · intro h
    by_contra hlt
    -- the first edge without a vector is missing at its first end
    have hedge : g.edgeVectors.length < g.edges.pairs.length := not_le.1 hlt
    have hpair := List.getElem?_eq_getElem hedge
    have hend := (g.edges.lt_of_mem _ (List.getElem_mem hedge)).1
    obtain ⟨row, hrow⟩ := h _ hend
    have hneighbour := (EdgeList.mem_row_iff hend).2 (Or.inl hpair)
    have hvector : ∀ p ∈ g.edges.adjacency.row g.edges.pairs[g.edgeVectors.length].1,
        ∃ q : Nat × FeatureVector K, (g.edgeVectors[p.2]?.map (p.1, ·)) = some q :=
      forall_mem_of_forall₂ (mapM_eq_some_iff.1 hrow).flip fun q _ _ hq => ⟨q, hq⟩
    obtain ⟨q, hq⟩ := hvector _ hneighbour
    simp at hq
  · intro hcount i hi
    obtain ⟨row, hrow, -⟩ := exists_neighbours? hcount hi
    exact ⟨row, hrow⟩

variable [Scalar K]

/-- Every edge has a vector of its own: there are as many edges as vectors, the adjacency holds numbers
of vectors, every neighbour comes with a vector, and scores of the vectors make a Potts model. -/
structure IsAligned (g : LabeledGraph K) : Prop where
  count_eq : g.edges.pairs.length = g.edgeVectors.length
  number_le : ∀ number ∈ g.edges.adjacency.edges, 1 ≤ number ∧ number ≤ g.edgeVectors.length
  exists_neighbours : ∀ i < g.order, ∃ row, g.neighbours? i = some row
  exists_model : ∀ potentials weights : List K, weights.length = g.edgeVectors.length →
    ¬ HasNegative weights → ∃ m, PottsModel.ofLists potentials g.edges.integers weights = .ok m

/-- The two counts decide everything. -/
lemma isAligned_iff : g.IsAligned ↔ g.edges.pairs.length = g.edgeVectors.length := by
  refine ⟨IsAligned.count_eq, fun hcount => ⟨hcount, ?_, ?_, ?_⟩⟩
  · intro number hnumber
    rw [← hcount]
    exact EdgeList.mem_adjacency_edges_iff.1 hnumber
  · exact forall_exists_neighbours?_iff.2 hcount.le
  · intro potentials weights hlength hnonneg
    rw [PottsModel.exists_ofLists_iff potentials hnonneg, EdgeList.length_integers, hcount, hlength]

end LabeledGraph

/-! ## Given graphs -/

lemma length_of_pairUp {α : Type} {xs : List α} {ps : List (α × α)} (h : pairUp xs = .ok ps) :
    xs.length = 2 * ps.length := by
  fun_induction pairUp xs generalizing ps with
  | case1 =>
    cases h
    rfl
  | case2 => cases h
  | case3 a b rest ih =>
    obtain ⟨qs, hqs, rfl⟩ := map_eq_ok_iff.1 h
    have hrest := ih hqs
    simp only [List.length_cons]
    omega

namespace GivenGraph

variable {given : GivenGraph} {g : LabeledGraph Float}

/-- The edges that are listed are nested lists of two numbers for every pair. -/
lemma readPairs_eq_ok {v : Value} {pairs : List (ℤ × ℤ)} (h : readPairs v = .ok pairs) :
    (∃ shape, v.nesting? = some shape) ∧ v.leaves.length = 2 * pairs.length := by
  obtain ⟨block, hblock, h⟩ := bind_eq_ok_iff.1 h
  rw [Value.toBlock] at hblock
  split at hblock
  · cases hblock
  · rename_i shape hshape
    obtain ⟨entries, hentries, rfl⟩ := map_eq_ok_iff.1 hblock
    have hlength := (mapM_eq_ok_iff.1 hentries).length_eq
    exact ⟨⟨shape, (Option.filter_eq_some_iff.1 hshape).1⟩, hlength.trans (length_of_pairUp h)⟩

/-- A graph that is read has a vector for every entry, and an edge for every pair. -/
lemma read_eq_ok (h : given.read = .ok g) :
    count given.edges = .ok g.edgeVectors.length ∧
      readPairs given.edges = .ok g.edges.integers := by
  obtain ⟨entries, hentries, h⟩ := bind_eq_ok_iff.1 h
  split at h
  · cases h
  · rename_i hcount
    obtain ⟨pairs, hpairs, h⟩ := bind_eq_ok_iff.1 h
    obtain ⟨edges, hedges, h⟩ := bind_eq_ok_iff.1 h
    obtain ⟨nodes, -, h⟩ := bind_eq_ok_iff.1 h
    obtain ⟨edgeVectors, -, h⟩ := bind_eq_ok_iff.1 h
    cases h
    rw [mapError_eq_ok_iff] at hentries hpairs hedges
    refine ⟨?_, ?_⟩
    · rw [hentries, edgeVectors.property.1, not_not.1 hcount]
    · rw [hpairs, ← EdgeList.integers_of_ofPairs hedges]
      rfl

/-- The edges are listed by entries that hold equally many numbers. -/
lemma exists_entries (h : given.read = .ok g) :
    ∃ entries k, given.edges = .list entries ∧ entries.length = g.edgeVectors.length ∧
      (∀ entry ∈ entries, entry.leaves.length = k) ∧
      entries.length * k = 2 * g.edges.pairs.length := by
  obtain ⟨hcount, hpairs⟩ := read_eq_ok h
  obtain ⟨⟨shape, hshape⟩, hleaves⟩ := readPairs_eq_ok hpairs
  rw [EdgeList.length_integers] at hleaves
  obtain ⟨items, hitems, hlength⟩ := map_eq_ok_iff.1 hcount
  cases hedges : given.edges with
  | list entries =>
    rw [hedges] at hshape hleaves hitems
    obtain rfl : entries = items := Except.ok.inj hitems
    obtain ⟨k, hk, htotal⟩ := Value.exists_length_leaves hshape
    exact ⟨entries, k, rfl, hlength, hk, htotal.symm.trans hleaves⟩
  | _ =>
    -- what is no list is a single number, or cannot be counted
    rw [hedges] at hleaves
    simp only [Value.leaves, List.length_singleton] at hleaves
    omega

/-- A graph that is read is aligned if and only if every entry of its edges holds two numbers, which is
so for a list of pairs.  If some entry holds more, there are neighbours without a vector. -/
theorem read_isAligned_iff (given : GivenGraph) (g : LabeledGraph Float) (h : given.read = .ok g) :
    ∃ entries, given.edges = .list entries ∧ entries.length = g.edgeVectors.length ∧
      (g.IsAligned ↔ ∀ entry ∈ entries, entry.leaves.length = 2) ∧
      ((∀ i < g.order, ∃ row, g.neighbours? i = some row) ↔
        ∀ entry ∈ entries, entry.leaves.length ≤ 2) := by
  obtain ⟨entries, k, hedges, hvectors, hentries, htotal⟩ := exists_entries h
  have hall : ∀ p : ℕ → Prop, (∀ entry ∈ entries, p entry.leaves.length) ↔
      entries.length = 0 ∨ p k := by
    intro p
    cases entries with
    | nil => simp
    | cons first rest =>
      constructor
      · intro hp
        rw [← hentries first List.mem_cons_self]
        exact Or.inr (hp first List.mem_cons_self)
      · rintro (hnil | hp) entry hentry
        · cases hnil
        · rwa [hentries entry hentry]
  refine ⟨entries, hedges, hvectors, ?_, ?_⟩
  · rw [LabeledGraph.isAligned_iff, hall (· = 2), ← hvectors]
    have hcancel : entries.length * k = entries.length * 2 ↔ k = 2 ∨ entries.length = 0 :=
      mul_eq_mul_left_iff
    omega
  · rw [LabeledGraph.forall_exists_neighbours?_iff, hall (· ≤ 2), ← hvectors]
    rcases Nat.eq_zero_or_pos entries.length with hzero | hpos
    · rw [hzero, Nat.zero_mul] at htotal
      omega
    · have hcancel : entries.length * k ≤ entries.length * 2 ↔ k ≤ 2 :=
        Nat.mul_le_mul_left_iff hpos
      omega

/-- Two edges between three nodes, which are nested more deeply than pairs. -/
def nestedPairs : GivenGraph where
  nodes := [.value (.list []), .value (.list []), .value (.list [])]
  edges := .list [.list [.list [.int 0], .list [.int 1]], .list [.list [.int 2], .list [.int 0]]]
  edgeVectors := [.value (.list [.int 1]), .value (.list [.int 1])]
  kind := some .dense

theorem read_isAligned_iff_nestedPairs : ∃ g, nestedPairs.read = .ok g ∧ g.IsAligned := by
  have hread : (nestedPairs.read.map fun _ => ()) = .ok () := by decide +kernel
  obtain ⟨g, hg, -⟩ := map_eq_ok_iff.1 hread
  obtain ⟨entries, hentries, -, haligned, -⟩ := read_isAligned_iff nestedPairs g hg
  refine ⟨g, hg, haligned.2 ?_⟩
  obtain rfl := Value.list.inj hentries
  decide

/-- Four nodes and two edges, which are listed as one entry and have one vector. -/
def mergedPairs : GivenGraph where
  nodes := [.value (.list [.int 1]), .value (.list [.int 2]), .value (.list [.int 3]),
    .value (.list [.int 4])]
  edges := .list [.list [.int 0, .int 1, .int 2, .int 3]]
  edgeVectors := [.value (.list [.int 1])]
  kind := none

theorem not_isAligned_mergedPairs :
    ∃ g, mergedPairs.read = .ok g ∧ g.edges.pairs = [(0, 1), (2, 3)] ∧ g.edgeVectors.length = 1 ∧
      g.neighbours? 2 = none ∧ ¬ g.IsAligned := by
  have hread : (mergedPairs.read.map fun g =>
      (g.edges.pairs, g.edgeVectors.length, (g.neighbours? 2).isNone)) =
      .ok ([(0, 1), (2, 3)], 1, true) := by
    decide +kernel
  obtain ⟨g, hg, hparts⟩ := map_eq_ok_iff.1 hread
  obtain ⟨hpairs, hvectors, hmissing⟩ : g.edges.pairs = [(0, 1), (2, 3)] ∧
      g.edgeVectors.length = 1 ∧ (g.neighbours? 2).isNone = true := by simpa using hparts
  refine ⟨g, hg, hpairs, hvectors, Option.isNone_iff_eq_none.1 hmissing, ?_⟩
  rw [LabeledGraph.isAligned_iff, hpairs, hvectors]
  decide

end GivenGraph

end PottsOracle
