import Mathlib.Algebra.BigOperators.Intervals
import PottsOracle.Graph.LabeledGraph
import PottsOracle.Proofs.Graph.CompressedRows
import PottsOracle.Proofs.Traverse

/-!
# Neighbourhoods say what the edge list says

A node has a neighbour for every edge at it, with the number of that edge, and no other neighbours
(`EdgeList.mem_neighbourhood_iff`); they are in increasing order.  The rows of the adjacency, which is
put together from the edges in both directions, are the neighbourhoods (`EdgeList.row_adjacency`).

Degrees count every edge at each of its ends (`EdgeList.sum_degree_add`); an edge of a node with
itself has one end.
-/

namespace PottsOracle

namespace EdgeList

variable {n : Nat} {edges : EdgeList n}

/-! ## Neighbours -/

/-- The nodes that a node is joined to, each with the number of the edge, in increasing order.  A
node with an edge to itself is its own neighbour, once. -/
def neighbourhood (edges : EdgeList n) (i : Nat) : List (Nat × Nat) :=
  (edges.pairs.zipIdx.filterMap fun ((a, b), e) =>
      if a = i then some (b, e) else if b = i then some (a, e) else none).mergeSort
    fun p q => p.1 ≤ q.1

/-- The neighbours of a node are the other ends of its edges. -/
lemma mem_neighbourhood_iff {i j k : Nat} :
    (j, k) ∈ edges.neighbourhood i ↔ edges.Joins k i j := by
  simp only [neighbourhood, List.mem_mergeSort, List.mem_filterMap, Prod.exists,
    List.mem_zipIdx_iff_getElem?]
  constructor
  · rintro ⟨a, b, l, hget, h⟩
    split_ifs at h with ha hb
    · obtain ⟨rfl, rfl⟩ := Prod.mk.inj (Option.some.inj h)
      exact Or.inl (ha ▸ hget)
    · obtain ⟨rfl, rfl⟩ := Prod.mk.inj (Option.some.inj h)
      exact Or.inr (hb ▸ hget)
  · rintro (hget | hget)
    · exact ⟨i, j, k, hget, if_pos rfl⟩
    · refine ⟨j, i, k, hget, ?_⟩
      by_cases hji : j = i
      · rw [if_pos hji, hji]
      · rw [if_neg hji, if_pos rfl]

/-- Neighbours are in increasing order, and none comes twice. -/
lemma pairwise_neighbourhood (edges : EdgeList n) (i : Nat) :
    (edges.neighbourhood i).Pairwise fun p q => p.1 < q.1 := by
  have hsorted : (edges.neighbourhood i).Pairwise fun p q => p.1 ≤ q.1 :=
    pairwise_mergeSort_le Prod.fst _
  have hdistinct : (edges.neighbourhood i).Pairwise fun p q => p.1 ≠ q.1 := by
    have hnumbers : (edges.neighbourhood i).Pairwise fun p q => p.2 ≠ q.2 := by
      rw [neighbourhood, (List.mergeSort_perm _ _).pairwise_iff fun h => Ne.symm h]
      have hplaces : edges.pairs.zipIdx.Pairwise fun p q => p.2 ≠ q.2 :=
        (pairwise_snd_zipIdx _).imp Nat.ne_of_lt
      refine hplaces.filterMap _ ?_
      rintro ⟨⟨a, b⟩, k⟩ ⟨⟨c, d⟩, l⟩ hkl p hp q hq
      have hk : p.2 = k := by
        dsimp only at hp
        split_ifs at hp <;> cases hp <;> rfl
      have hl : q.2 = l := by
        dsimp only at hq
        split_ifs at hq <;> cases hq <;> rfl
      rw [hk, hl]
      exact hkl
    -- two edges to one neighbour would be one edge
    refine hnumbers.imp_of_mem ?_
    rintro ⟨j, k⟩ ⟨j', l⟩ hk hl hne rfl
    exact hne ((mem_neighbourhood_iff.1 hk).unique (mem_neighbourhood_iff.1 hl))
  exact hsorted.imp₂ (fun _ _ hle hne => lt_of_le_of_ne hle hne) hdistinct

/-- The row of a node is its neighbourhood. -/
lemma row_adjacency {i : Nat} (hi : i < n) : edges.adjacency.row i = edges.neighbourhood i := by
  refine (pairwise_row hi).eq_of_mem_iff (edges.pairwise_neighbourhood i) ?_
  rintro ⟨j, k⟩
  rw [mem_row_iff hi, mem_neighbourhood_iff]

/-! ## Degrees -/

lemma degree_eq_length {i : Nat} (hi : i < n) :
    edges.degree i = (edges.neighbourhood i).length := by
  rw [← row_adjacency hi]
  exact Adjacency.degree_ofIncidences hi

/-- The degree of a node is the number of edges that have it as an end. -/
lemma degree_eq_countP {i : Nat} (hi : i < n) :
    edges.degree i = edges.pairs.countP fun e => e.1 = i ∨ e.2 = i := by
  rw [degree_eq_length hi, neighbourhood, List.length_mergeSort, List.length_filterMap_eq_countP]
  have hmap := List.countP_map (p := fun e : Nat × Nat => decide (e.1 = i ∨ e.2 = i))
    (f := Prod.fst) (l := edges.pairs.zipIdx)
  rw [List.zipIdx_map_fst] at hmap
  rw [hmap]
  refine List.countP_congr ?_
  rintro ⟨⟨a, b⟩, k⟩ -
  simp only [Function.comp_apply, decide_eq_true_eq]
  split_ifs with ha hb
  · simp [ha]
  · simp [hb]
  · simp [ha, hb]

/-- An edge has two ends among the nodes, or one if they are the same. -/
lemma sum_ends {a b : Nat} (ha : a < n) (hb : b < n) :
    (∑ i ∈ Finset.range n, if a = i ∨ b = i then 1 else 0) + (if a = b then 1 else 0) = 2 := by
  rw [Finset.sum_boole, Nat.cast_id]
  have hfilter : ((Finset.range n).filter fun i => a = i ∨ b = i) = {a, b} := by
    ext i
    simp only [Finset.mem_filter, Finset.mem_range, Finset.mem_insert, Finset.mem_singleton]
    omega
  rw [hfilter]
  by_cases hab : a = b
  · simp [hab]
  · rw [Finset.card_pair hab, if_neg hab]

lemma sum_countP_add {pairs : List (Nat × Nat)} (h : ∀ e ∈ pairs, e.1 < n ∧ e.2 < n) :
    (∑ i ∈ Finset.range n, pairs.countP fun e => e.1 = i ∨ e.2 = i)
      + pairs.countP (fun e => e.1 = e.2) = 2 * pairs.length := by
  induction pairs with
  | nil => simp
  | cons e pairs ih =>
    have he := sum_ends (h e List.mem_cons_self).1 (h e List.mem_cons_self).2
    have hrest := ih fun f hf => h f (List.mem_cons_of_mem e hf)
    simp only [List.countP_cons, Finset.sum_add_distrib, decide_eq_true_eq, List.length_cons]
    omega

/-- Degrees count every edge twice, but for edges of a node with itself. -/
theorem sum_degree_add (edges : EdgeList n) :
    ((List.range n).map edges.degree).sum + edges.pairs.countP (fun e => e.1 = e.2) =
      2 * edges.pairs.length := by
  have hsum : ((List.range n).map edges.degree).sum = ∑ i ∈ Finset.range n, edges.degree i := rfl
  rw [hsum, ← sum_countP_add edges.lt_of_mem,
    Finset.sum_congr rfl fun i hi => degree_eq_countP (Finset.mem_range.1 hi)]

end EdgeList

namespace LabeledGraph

variable {K : Type} {kind : FeatureKind} {nodes edgeVectors : List (FeatureVector K)}
  {pairs : List (ℤ × ℤ)} {g : LabeledGraph K}

/-! ## Graphs -/

/-- What a graph is built from is what it has. -/
lemma ofEdges_eq_ok (h : ofEdges kind nodes pairs edgeVectors = .ok g) :
    pairs.length = edgeVectors.length ∧ g.kind = kind ∧ g.nodes = nodes ∧
      g.edges.integers = pairs ∧ g.edgeVectors = edgeVectors := by
  rw [ofEdges] at h
  split at h
  · cases h
  · rename_i hcount
    obtain ⟨edges, hedges, h⟩ := bind_eq_ok_iff.1 h
    split at h
    · cases h
      exact ⟨not_not.1 hcount, rfl, rfl, EdgeList.integers_of_ofPairs (mapError_eq_ok_iff.1 hedges),
        rfl⟩
    · cases h

lemma exists_ofEdges_iff (hnodes : ∀ v ∈ nodes, v.kind = kind)
    (hvectors : ∀ v ∈ edgeVectors, v.kind = kind) :
    (∃ g, ofEdges kind nodes pairs edgeVectors = .ok g) ↔
      pairs.length = edgeVectors.length ∧
        ∃ edges, EdgeList.ofPairs nodes.length pairs = .ok edges := by
  constructor
  · rintro ⟨g, h⟩
    rw [ofEdges] at h
    split at h
    · cases h
    · rename_i hcount
      obtain ⟨edges, hedges, -⟩ := bind_eq_ok_iff.1 h
      exact ⟨not_not.1 hcount, edges, mapError_eq_ok_iff.1 hedges⟩
  · rintro ⟨hcount, edges, hedges⟩
    rw [ofEdges, if_neg (not_not.2 hcount), hedges]
    exact ⟨_, dif_pos ⟨hnodes, hvectors⟩⟩

/-- Every neighbour comes with the vector of the edge that leads to it. -/
lemma exists_neighbours? (hcount : g.edges.pairs.length ≤ g.edgeVectors.length) {i : Nat}
    (hi : i < g.order) :
    ∃ row, g.neighbours? i = some row ∧
      List.Forall₂ (fun p q => q.1 = p.1 ∧ g.edgeVectors[p.2]? = some q.2)
        (g.edges.neighbourhood i) row := by
  have hvector : ∀ p ∈ g.edges.neighbourhood i, ∃ q : Nat × FeatureVector K,
      (g.edgeVectors[p.2]?.map (p.1, ·)) = some q := by
    rintro ⟨j, k⟩ hp
    have hk := (EdgeList.mem_neighbourhood_iff.1 hp).lt_length
    rw [List.getElem?_eq_getElem (hk.trans_le hcount)]
    exact ⟨_, rfl⟩
  obtain ⟨row, hrow⟩ := exists_forall₂ hvector
  refine ⟨row, ?_, hrow.imp ?_⟩
  · have hneighbours : g.edges.adjacency.row i = g.edges.neighbourhood i :=
      EdgeList.row_adjacency hi
    rw [neighbours?, hneighbours]
    exact mapM_eq_some_iff.2 hrow
  · rintro p q hpq
    obtain ⟨v, hv, rfl⟩ := Option.map_eq_some_iff.1 hpq
    exact ⟨rfl, hv⟩

/-- A graph can be built if there is a vector for every pair, the pairs join nodes, and no two of
them join the same nodes.  The neighbours of a node are then the other ends of its edges, in
strictly increasing order, each with the vector of its edge; edges lead both ways, and the rows of
the adjacency say the same. -/
theorem ofEdges_neighbours (kind : FeatureKind) (nodes : List (FeatureVector K))
    (pairs : List (ℤ × ℤ)) (edgeVectors : List (FeatureVector K))
    (hnodes : ∀ v ∈ nodes, v.kind = kind) (hvectors : ∀ v ∈ edgeVectors, v.kind = kind) :
    ((∃ g, ofEdges kind nodes pairs edgeVectors = .ok g) ↔
      pairs.length = edgeVectors.length ∧ (∀ e ∈ pairs, EdgeList.InRange nodes.length e) ∧
        pairs.Pairwise fun e f => s(e.1, e.2) ≠ s(f.1, f.2)) ∧
    ∀ g, ofEdges kind nodes pairs edgeVectors = .ok g →
      g.order = nodes.length ∧
      (∀ i < g.order,
        (∀ j k : Nat, (j, k) ∈ g.edges.neighbourhood i ↔
          pairs[k]? = some ((i : ℤ), (j : ℤ)) ∨ pairs[k]? = some ((j : ℤ), (i : ℤ))) ∧
        (g.edges.neighbourhood i).Pairwise (fun p q => p.1 < q.1) ∧
        (∃ row, g.neighbours? i = some row ∧ g.edges.degree i = row.length ∧
          List.Forall₂ (fun p q => q.1 = p.1 ∧ edgeVectors[p.2]? = some q.2)
            (g.edges.neighbourhood i) row) ∧
        (∀ j k : Nat, (j, k) ∈ g.edges.neighbourhood i ↔ (i, k) ∈ g.edges.neighbourhood j) ∧
        g.edges.adjacency.row i = g.edges.neighbourhood i) ∧
      ((List.range g.order).map g.edges.degree).sum =
        2 * pairs.length - pairs.countP (fun e => e.1 = e.2) ∧
      (g.edges.hasSelfLoop = true ↔ ∃ e ∈ pairs, e.1 = e.2) := by
  constructor
  · rw [exists_ofEdges_iff hnodes hvectors, EdgeList.exists_ofPairs_iff]
  intro g hg
  obtain ⟨hcount, -, rfl, rfl, rfl⟩ := ofEdges_eq_ok hg
  have hpairs : g.edges.pairs.length = g.edgeVectors.length := by
    rwa [EdgeList.integers, List.length_map] at hcount
  refine ⟨rfl, ?_, ?_, ?_⟩
  · intro i hi
    obtain ⟨row, hrow, hforall⟩ := exists_neighbours? hpairs.le hi
    have hdegree := (EdgeList.degree_eq_length hi).trans hforall.length_eq
    refine ⟨?_, g.edges.pairwise_neighbourhood i, ⟨row, hrow, hdegree, hforall⟩, ?_,
      EdgeList.row_adjacency hi⟩
    · intro j k
      rw [EdgeList.mem_neighbourhood_iff, EdgeList.joins_iff_integers]
    · intro j k
      rw [EdgeList.mem_neighbourhood_iff, EdgeList.mem_neighbourhood_iff, EdgeList.joins_comm]
  · have hsum := g.edges.sum_degree_add
    rw [EdgeList.countP_integers, EdgeList.length_integers]
    exact Nat.eq_sub_of_add_eq hsum
  · rw [EdgeList.hasSelfLoop_eq_true_iff]
    simp [EdgeList.integers]

/-- The vectors of three nodes. -/
def starNodes : List (FeatureVector Rat) := [.dense [1], .dense [], .dense [2, 3]]

/-- The first node is joined to itself and, in both directions, to the others. -/
def starPairs : List (ℤ × ℤ) := [(0, 2), (0, 0), (1, 0)]

/-- A vector for every pair. -/
def starVectors : List (FeatureVector Rat) := [.dense [5], .dense [], .dense [7]]

theorem ofEdges_neighbours_starPairs :
    (∀ v ∈ starNodes, v.kind = .dense) ∧ (∀ v ∈ starVectors, v.kind = .dense) ∧
      ∃ g, ofEdges .dense starNodes starPairs starVectors = .ok g ∧
        (1, 2) ∈ g.edges.neighbourhood 0 ∧ (0, 2) ∈ g.edges.neighbourhood 1 ∧
        (0, 1) ∈ g.edges.neighbourhood 0 ∧
        g.edges.adjacency.row 0 = g.edges.neighbourhood 0 ∧
        ((List.range g.order).map g.edges.degree).sum = 5 ∧ g.edges.hasSelfLoop = true := by
  have hnodes : ∀ v ∈ starNodes, v.kind = .dense := by simp [starNodes, FeatureVector.kind]
  have hvectors : ∀ v ∈ starVectors, v.kind = .dense := by simp [starVectors, FeatureVector.kind]
  obtain ⟨hbuilt, hall⟩ := ofEdges_neighbours .dense starNodes starPairs starVectors hnodes hvectors
  obtain ⟨g, hg⟩ := hbuilt.2 ⟨rfl, by decide, by decide⟩
  obtain ⟨horder, hrows, hsum, hloop⟩ := hall g hg
  have hzero : 0 < g.order := horder ▸ (show 0 < 3 by decide)
  obtain ⟨hmem, -, -, hback, hrow⟩ := hrows 0 hzero
  have hedge : (1, 2) ∈ g.edges.neighbourhood 0 := (hmem 1 2).2 (Or.inr rfl)
  exact ⟨hnodes, hvectors, g, hg, hedge, (hback 1 2).1 hedge, (hmem 0 1).2 (Or.inl rfl), hrow,
    hsum, hloop.2 ⟨(0, 0), by decide, rfl⟩⟩

end LabeledGraph

end PottsOracle
