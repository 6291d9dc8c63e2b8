import Mathlib.Algebra.Order.BigOperators.Group.List
import Mathlib.Algebra.Order.Ring.Nat
import PottsOracle.Proofs.Graph.EdgeList

/-!
# Compressed rows

Incidences are put into compressed rows by `Adjacency.ofIncidences`, and a row is read back as the
incidences of its node, sorted by neighbour (`Adjacency.entries_ofIncidences`).

The incidences of an edge list say which nodes are joined and by which edge
(`EdgeList.mem_incidences_iff`).  There is one entry at most for a place of the matrix
(`EdgeList.pairwise_incidences`), so neighbours are in strictly increasing order
(`EdgeList.pairwise_entries`) and the diagonal holds the edges that join a node to itself
(`EdgeList.diagonal_ne_zero_iff`).
-/

namespace PottsOracle

/-! ## Lists in order -/

lemma pairwise_snd_zipIdx {α : Type} {k : Nat} (xs : List α) :
    (xs.zipIdx k).Pairwise fun p q => p.2 < q.2 := by
  have hplaces : ((xs.zipIdx k).map Prod.snd).Pairwise (· < ·) := by
    rw [List.zipIdx_map_snd]
    exact List.pairwise_lt_range'
  exact List.pairwise_map.1 hplaces

lemma pairwise_mergeSort_le {α : Type} (f : α → Nat) (xs : List α) :
    (xs.mergeSort fun p q => f p ≤ f q).Pairwise fun p q => f p ≤ f q := by
  have htrans (a b c : α) (hab : decide (f a ≤ f b) = true) (hbc : decide (f b ≤ f c) = true) :
      decide (f a ≤ f c) = true := by
    simp only [decide_eq_true_eq] at hab hbc ⊢
    exact hab.trans hbc
  have htotal (a b : α) : (decide (f a ≤ f b) || decide (f b ≤ f a)) = true := by
    simp only [Bool.or_eq_true, decide_eq_true_eq]
    exact le_total _ _
  exact (List.pairwise_mergeSort htrans htotal xs).imp of_decide_eq_true

/-! ## Rows of incidences -/

namespace Adjacency

variable {n i : Nat} {incidences : List Incidence}

lemma mem_sortedAt_iff {p : Incidence} : p ∈ sortedAt incidences i ↔ p ∈ incidences ∧ p.node = i := by
  simp [sortedAt]

lemma getD_starts (hi : i ≤ n) : (ofIncidences n incidences).starts.getD i 0 =
    ((((List.range n).map (sortedAt incidences)).map List.length).take i).sum := by
  rw [ofIncidences, List.getD_eq_getElem?_getD, List.getElem?_scanl, if_pos (by simpa using hi),
    Option.getD_some, List.sum_eq_foldl]

/-- A row holds the incidences of its node. -/
lemma entries_ofIncidences (hi : i < n) : (ofIncidences n incidences).entries i =
    (sortedAt incidences i).map fun p => (p.neighbour, p.edge) := by
  have hlength : i < ((List.range n).map (sortedAt incidences)).length := by simpa using hi
  have hzip : (ofIncidences n incidences).neighbours.zip (ofIncidences n incidences).edges =
      ((List.range n).map (sortedAt incidences)).flatten.map fun p => (p.neighbour, p.edge) :=
    List.zip_map'
  rw [entries, hzip, ← List.map_take, ← List.map_drop, getD_starts hi, getD_starts hi.le,
    List.drop_take_succ_flatten_eq_getElem _ i hlength]
  simp

/-- The degree of a node is the length of its row. -/
lemma degree_ofIncidences (hi : i < n) :
    (ofIncidences n incidences).degree i = ((ofIncidences n incidences).row i).length := by
  rw [degree, row, entries_ofIncidences hi, getD_starts hi, getD_starts hi.le, List.length_map,
    List.length_map]
  simp [List.take_add_one, hi]

end Adjacency

namespace EdgeList

variable {n : Nat} {edges : EdgeList n}

/-! ## Incidences of an edge list -/

/-- The incidences of a node lead to the other ends of its edges. -/
lemma mem_incidences_iff {i j e : Nat} :
    ⟨i, j, e⟩ ∈ edges.incidences ↔ 1 ≤ e ∧ edges.Joins (e - 1) i j := by
  simp only [incidences, List.mem_append, List.mem_map, List.mem_filter, Prod.exists,
    List.mk_mem_zipIdx_iff_le_and_getElem?_sub, Incidence.mk.injEq, decide_eq_true_eq, Joins]
  constructor
  · rintro (⟨a, b, e, ⟨hone, hget⟩, rfl, rfl, rfl⟩ | ⟨a, b, e, ⟨⟨hone, hget⟩, -⟩, rfl, rfl, rfl⟩)
    · exact ⟨hone, Or.inl hget⟩
    · exact ⟨hone, Or.inr hget⟩
  · rintro ⟨hone, hget | hget⟩
    · exact Or.inl ⟨i, j, e, ⟨hone, hget⟩, rfl, rfl, rfl⟩
    · by_cases hne : j = i
      · subst hne
        exact Or.inl ⟨j, j, e, ⟨hone, hget⟩, rfl, rfl, rfl⟩
      · exact Or.inr ⟨j, i, e, ⟨⟨hone, hget⟩, hne⟩, rfl, rfl, rfl⟩

/-- Two incidences in one place of the matrix are through one edge. -/
lemma edge_eq_of_mem_incidences {p q : Incidence} (hp : p ∈ edges.incidences)
    (hq : q ∈ edges.incidences) (hnode : p.node = q.node) (hneighbour : p.neighbour = q.neighbour) :
    p.edge = q.edge := by
  obtain ⟨i, j, e⟩ := p
  obtain ⟨i', j', f⟩ := q
  obtain rfl : i = i' := hnode
  obtain rfl : j = j' := hneighbour
  obtain ⟨he, hp⟩ := mem_incidences_iff.1 hp
  obtain ⟨hf, hq⟩ := mem_incidences_iff.1 hq
  have hnumber := hp.unique hq
  show e = f
  omega

/-- No place of the matrix has two entries. -/
lemma pairwise_incidences (edges : EdgeList n) :
    edges.incidences.Pairwise fun p q => p.node = q.node → p.neighbour ≠ q.neighbour := by
  have hnumbered : (edges.pairs.zipIdx 1).Pairwise fun p q => p.2 ≠ q.2 :=
    (pairwise_snd_zipIdx _).imp Nat.ne_of_lt
  have hedges : edges.incidences.Pairwise fun p q => p ≠ q := by
    rw [incidences, List.pairwise_append, List.pairwise_map, List.pairwise_map]
    refine ⟨?_, ?_, ?_⟩
    · exact hnumbered.imp fun hne heq => hne (congrArg Incidence.edge heq)
    · exact (hnumbered.filter _).imp fun hne heq => hne (congrArg Incidence.edge heq)
    · -- an edge that is the same in both directions joins a node to itself
      rintro p hp q hq rfl
      obtain ⟨⟨⟨a, b⟩, e⟩, he, rfl⟩ := List.mem_map.1 hp
      obtain ⟨⟨⟨c, d⟩, f⟩, hf, heq⟩ := List.mem_map.1 hq
      obtain ⟨hf, hne⟩ := List.mem_filter.1 hf
      obtain ⟨rfl, rfl, rfl⟩ := Incidence.mk.inj heq
      have hab := (List.mk_mem_zipIdx_iff_le_and_getElem?_sub.1 he).2
      have hba := (List.mk_mem_zipIdx_iff_le_and_getElem?_sub.1 hf).2
      rw [hab] at hba
      obtain ⟨rfl, -⟩ := Prod.mk.inj (Option.some.inj hba)
      simp at hne
  refine hedges.imp_of_mem ?_
  rintro ⟨i, j, e⟩ ⟨i', j', f⟩ hp hq hne rfl rfl
  obtain rfl : e = f := edge_eq_of_mem_incidences hp hq rfl rfl
  exact hne rfl

/-! ## Rows of an edge list -/

lemma mem_entries_iff {i j e : Nat} (hi : i < n) :
    (j, e) ∈ edges.adjacency.entries i ↔ 1 ≤ e ∧ edges.Joins (e - 1) i j := by
  rw [adjacency, Adjacency.entries_ofIncidences hi, ← mem_incidences_iff, List.mem_map]
  constructor
  · rintro ⟨p, hp, ⟨⟩⟩
    obtain ⟨hmem, rfl⟩ := Adjacency.mem_sortedAt_iff.1 hp
    exact hmem
  · intro hp
    exact ⟨_, Adjacency.mem_sortedAt_iff.2 ⟨hp, rfl⟩, rfl⟩

/-- Neighbours are in increasing order, and none comes twice. -/
lemma pairwise_entries {i : Nat} (hi : i < n) :
    (edges.adjacency.entries i).Pairwise fun p q => p.1 < q.1 := by
  rw [adjacency, Adjacency.entries_ofIncidences hi, List.pairwise_map]
  have hsorted := pairwise_mergeSort_le Incidence.neighbour (edges.incidences.filter (·.node = i))
  have hdistinct : (Adjacency.sortedAt edges.incidences i).Pairwise fun p q =>
      p.node = q.node → p.neighbour ≠ q.neighbour := by
    rw [Adjacency.sortedAt, (List.mergeSort_perm _ _).pairwise_iff fun h heq => (h heq.symm).symm]
    exact edges.pairwise_incidences.filter _
  refine (hsorted.and hdistinct).imp_of_mem ?_
  rintro p q hp hq ⟨hle, hne⟩
  have hnode : p.node = q.node :=
    (Adjacency.mem_sortedAt_iff.1 hp).2.trans (Adjacency.mem_sortedAt_iff.1 hq).2.symm
  exact lt_of_le_of_ne hle (hne hnode)

lemma mem_row_iff {i j k : Nat} (hi : i < n) :
    (j, k) ∈ edges.adjacency.row i ↔ edges.Joins k i j := by
  rw [Adjacency.row, List.mem_map]
  constructor
  · rintro ⟨⟨j, e⟩, hentry, ⟨⟩⟩
    exact ((mem_entries_iff hi).1 hentry).2
  · intro hk
    exact ⟨(j, k + 1), (mem_entries_iff hi).2 ⟨Nat.le_add_left 1 k, hk⟩, rfl⟩

lemma pairwise_row {i : Nat} (hi : i < n) :
    (edges.adjacency.row i).Pairwise fun p q => p.1 < q.1 :=
  List.pairwise_map.2 (pairwise_entries hi)

/-! ## The diagonal -/

/-- There is an entry on the diagonal where an edge joins a node to itself; it is not zero, because
edges are counted from one. -/
lemma diagonal_ne_zero_iff {i : Nat} (hi : i < n) :
    edges.adjacency.diagonal i ≠ 0 ↔ ∃ k : Nat, edges.pairs[k]? = some (i, i) := by
  rw [Adjacency.diagonal, ← List.sum_eq_foldl, ne_eq, List.sum_eq_zero_iff]
  push Not
  constructor
  · rintro ⟨e, he, -⟩
    obtain ⟨⟨j, e⟩, hentry, rfl⟩ := List.mem_map.1 he
    obtain ⟨hentry, hj⟩ := List.mem_filter.1 hentry
    obtain rfl : j = i := of_decide_eq_true hj
    exact ⟨e - 1, or_self_iff.1 ((mem_entries_iff hi).1 hentry).2⟩
  · rintro ⟨k, hk⟩
    have hentry : (i, k + 1) ∈ edges.adjacency.entries i :=
      (mem_entries_iff hi).2 ⟨Nat.le_add_left 1 k, Or.inl hk⟩
    refine ⟨k + 1, List.mem_map.2 ⟨(i, k + 1), ?_, rfl⟩, Nat.succ_ne_zero k⟩
    exact List.mem_filter.2 ⟨hentry, decide_eq_true rfl⟩

/-- A node is its own neighbour through an edge to itself only. -/
lemma hasSelfLoop_eq_true_iff : edges.hasSelfLoop = true ↔ ∃ e ∈ edges.pairs, e.1 = e.2 := by
  have hloop : edges.hasSelfLoop = true ↔ ∃ i < n, edges.adjacency.diagonal i ≠ 0 := by
    simp [hasSelfLoop]
  rw [hloop]
  constructor
  · rintro ⟨i, hi, hdiagonal⟩
    obtain ⟨k, hk⟩ := (diagonal_ne_zero_iff hi).1 hdiagonal
    exact ⟨(i, i), List.mem_of_getElem? hk, rfl⟩
  · rintro ⟨⟨i, j⟩, he, hends⟩
    obtain rfl : i = j := hends
    have hi : i < n := (edges.lt_of_mem _ he).1
    exact ⟨i, hi, (diagonal_ne_zero_iff hi).2 (List.mem_iff_getElem?.1 he)⟩

/-- No edge joins a node to itself if no node is its own neighbour. -/
lemma hasSelfLoop_eq_false_iff :
    edges.hasSelfLoop = false ↔ ∀ e ∈ edges.pairs, e.1 ≠ e.2 := by
  rw [← Bool.not_eq_true, hasSelfLoop_eq_true_iff]
  push Not
  rfl

end EdgeList

end PottsOracle
