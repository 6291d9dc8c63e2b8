import Mathlib.Algebra.BigOperators.Intervals
import PottsOracle.Proofs.Arith.Values
import PottsOracle.Proofs.Synthetic.Generated
import PottsOracle.Synthetic.Given

/-!
# Pairs of nodes that are drawn

For every pair of nodes there is one draw, the entry of a square table that is filled row by row.  The
pair becomes an edge if the draw is below the probability of its labels (`Synthetic.mem_nextPairs_iff`).
Since pairs come in strictly increasing order, this says which list they are
(`Synthetic.nextPairs_congr`), and with any vectors they make a graph
(`Synthetic.exists_ofEdges_nextPairs`).

Draws are at least zero and below one.  Nothing is below a probability of zero then, and everything is
below a probability of one.
-/

namespace PottsOracle

variable {K : Type}

namespace Synthetic

/-! ## Membership and order -/

section Pairs

variable [Scalar K]

/-- The pairs of nodes that are drawn next. -/
def nextPairs (labels : Labeling) (pSame pDiff : K) (source : DrawSource K) : List (ℕ × ℕ) :=
  sampleEdges labels pSame pDiff (source.nextRows labels.length labels.length)

variable {labels : Labeling} {pSame pDiff : K} {source source' : DrawSource K}

/-- A pair is drawn if its entry is below the probability of its labels. -/
lemma mem_nextPairs_iff {i j : ℕ} :
    (i, j) ∈ nextPairs labels pSame pDiff source ↔ i < j ∧ j < labels.length ∧
      Scalar.lt (source.entry labels.length i j)
        (if labels[i]? = labels[j]? then pSame else pDiff) = true := by
  rw [nextPairs, mem_sampleEdges_iff]
  refine and_congr_right fun hlt => ?_
  constructor
  · rintro ⟨a, b, row, u, ha, hb, hrow, hu, hdraw⟩
    have hi := (List.getElem?_eq_some_iff.1 ha).1
    have hj := (List.getElem?_eq_some_iff.1 hb).1
    rw [DrawSource.getElem?_nextRows hi] at hrow
    cases hrow
    rw [DrawSource.getElem?_next_skip hj] at hu
    cases hu
    refine ⟨hj, ?_⟩
    simpa only [ha, hb, Option.some.injEq] using hdraw
  · rintro ⟨hj, hdraw⟩
    have hi := hlt.trans hj
    have ha := List.getElem?_eq_getElem hi
    have hb := List.getElem?_eq_getElem hj
    refine ⟨_, _, _, _, ha, hb, DrawSource.getElem?_nextRows hi, DrawSource.getElem?_next_skip hj, ?_⟩
    simpa only [ha, hb, Option.some.injEq] using hdraw

lemma pairwise_nextPairs :
    (nextPairs labels pSame pDiff source).Pairwise fun e f => toLex e < toLex f :=
  pairwise_sampleEdges

lemma nodup_nextPairs : (nextPairs labels pSame pDiff source).Nodup :=
  pairwise_nextPairs.imp fun hlt heq => hlt.ne (congrArg toLex heq)

/-- Only the entries above the diagonal matter. -/
lemma nextPairs_congr (h : ∀ i j, i < j → j < labels.length →
      source'.entry labels.length i j = source.entry labels.length i j) :
    nextPairs labels pSame pDiff source' = nextPairs labels pSame pDiff source := by
  refine (toLex (α := ℕ × ℕ)).injective.list_map ?_
  refine List.Pairwise.eq_of_mem_iff (List.pairwise_map.2 pairwise_nextPairs)
    (List.pairwise_map.2 pairwise_nextPairs) fun e => ?_
  have hmem : ∀ i j, (i, j) ∈ nextPairs labels pSame pDiff source' ↔
      (i, j) ∈ nextPairs labels pSame pDiff source := by
    intro i j
    rw [mem_nextPairs_iff, mem_nextPairs_iff]
    refine and_congr_right fun hlt => and_congr_right fun hj => ?_
    rw [h i j hlt hj]
  simp only [List.mem_map, Prod.exists, hmem]

/-- Pairs that are drawn are the edges of a graph without self-loops, whatever its vectors are. -/
lemma exists_ofEdges_nextPairs {kind : FeatureKind} {nodes edgeVectors : List (FeatureVector K)}
    (hnodes : ∀ v ∈ nodes, v.kind = kind) (hvectors : ∀ v ∈ edgeVectors, v.kind = kind)
    (horder : nodes.length = labels.length)
    (hcount : edgeVectors.length = (nextPairs labels pSame pDiff source).length) :
    ∃ g, LabeledGraph.ofEdges kind nodes (integerPairs (nextPairs labels pSame pDiff source))
        edgeVectors = .ok g ∧
      g.edges.pairs = nextPairs labels pSame pDiff source ∧ g.edges.hasSelfLoop = false := by
  have hlength : (integerPairs (nextPairs labels pSame pDiff source)).length =
      edgeVectors.length := by
    rw [integerPairs, List.length_map, hcount]
  obtain ⟨g, hg⟩ := (LabeledGraph.exists_ofEdges_iff hnodes hvectors).2
    ⟨hlength, exists_ofPairs_sampleEdges horder.symm⟩
  have hpairs : g.edges.pairs = nextPairs labels pSame pDiff source :=
    pairs_eq_of_integers (LabeledGraph.ofEdges_eq_ok hg).2.2.2.1
  refine ⟨g, hg, hpairs, EdgeList.hasSelfLoop_eq_false_iff.2 fun e he => ?_⟩
  rw [hpairs] at he
  exact (lt_of_mem_sampleEdges he).1.ne

/-- There are `n (n - 1) / 2` pairs of `n` nodes. -/
lemma length_nextPairs_of_forall_mem
    (h : ∀ i j, i < j → j < labels.length → (i, j) ∈ nextPairs labels pSame pDiff source) :
    (nextPairs labels pSame pDiff source).length = labels.length * (labels.length - 1) / 2 := by
  have hpairs : (nextPairs labels pSame pDiff source).toFinset =
      ((Finset.range labels.length).sigma fun j => Finset.range j).image fun p => (p.2, p.1) := by
    ext ⟨i, j⟩
    simp only [List.mem_toFinset, Finset.mem_image, Finset.mem_sigma, Finset.mem_range]
    constructor
    · intro hmem
      obtain ⟨hlt, hj, -⟩ := mem_nextPairs_iff.1 hmem
      exact ⟨⟨j, i⟩, ⟨hj, hlt⟩, rfl⟩
    · rintro ⟨⟨j', i'⟩, ⟨hj, hlt⟩, ⟨⟩⟩
      exact h _ _ hlt hj
  have hinjective : Function.Injective fun p : (_ : ℕ) × ℕ => (p.2, p.1) := by
    rintro ⟨j, i⟩ ⟨j', i'⟩ ⟨⟩
    rfl
  rw [← List.toFinset_card_of_nodup nodup_nextPairs, hpairs,
    Finset.card_image_of_injective _ hinjective, Finset.card_sigma]
  simp only [Finset.card_range, Finset.sum_range_id]

end Pairs

/-! ## Draws between zero and one -/

/-- The numbers above the diagonal are at least zero and below one. -/
def DrawsInUnit (source : DrawSource Float) (n : ℕ) : Prop :=
  ∀ i j, i < j → j < n →
    ∃ u, Binary64.value? (source.entry n i j) = some u ∧ 0 ≤ u ∧ u < 1

variable {labels : Labeling} {pSame pDiff : Float} {source : DrawSource Float}

/-- No edge joins nodes with different labels if the probability of one is zero. -/
lemma label_eq_of_mem_nextPairs (hdraws : DrawsInUnit source labels.length)
    (hzero : Binary64.value? pDiff = some 0) {i j : ℕ}
    (h : (i, j) ∈ nextPairs labels pSame pDiff source) : labels[i]? = labels[j]? := by
  obtain ⟨hlt, hj, hdraw⟩ := mem_nextPairs_iff.1 h
  by_contra hne
  obtain ⟨u, hu, hnonneg, -⟩ := hdraws i j hlt hj
  rw [if_neg hne, Binary64.lt_iff_of_value hu hzero] at hdraw
  exact hnonneg.not_gt hdraw

/-- All nodes are joined if both probabilities are one. -/
lemma mem_nextPairs_of_one (hdraws : DrawsInUnit source labels.length)
    (hsame : Binary64.value? pSame = some 1) (hdiff : Binary64.value? pDiff = some 1) {i j : ℕ}
    (hlt : i < j) (hj : j < labels.length) : (i, j) ∈ nextPairs labels pSame pDiff source := by
  have hprobability : Binary64.value? (if labels[i]? = labels[j]? then pSame else pDiff) =
      some 1 := by
    split_ifs
    · exact hsame
    · exact hdiff
  obtain ⟨u, hu, -, hone⟩ := hdraws i j hlt hj
  exact mem_nextPairs_iff.2 ⟨hlt, hj, (Binary64.lt_iff_of_value hu hprobability).2 hone⟩

/-- The pairs that are drawn are those above the diagonal whose entry is below the probability of their
labels, in strictly increasing lexicographic order; no other entry matters.  On as many nodes as there
are labels, and with a vector for each, they are the edges of a graph without self-loops.  With draws
between zero and one, no two labels are joined if their probability is zero, and all nodes are joined if
both probabilities are one. -/
theorem nextPairs_eq_pairs_below (labels : Labeling) (pSame pDiff : Float)
    (source : DrawSource Float) :
    (∀ i j, (i, j) ∈ nextPairs labels pSame pDiff source ↔ i < j ∧ j < labels.length ∧
      Scalar.lt (source.entry labels.length i j)
        (if labels[i]? = labels[j]? then pSame else pDiff) = true) ∧
    ((nextPairs labels pSame pDiff source).Pairwise fun e f => toLex e < toLex f) ∧
    (∀ source' : DrawSource Float, (∀ i j, i < j → j < labels.length →
        source'.entry labels.length i j = source.entry labels.length i j) →
      nextPairs labels pSame pDiff source' = nextPairs labels pSame pDiff source) ∧
    (∀ (kind : FeatureKind) (nodes edgeVectors : List (FeatureVector Float)),
      (∀ v ∈ nodes, v.kind = kind) → (∀ v ∈ edgeVectors, v.kind = kind) →
      nodes.length = labels.length →
      edgeVectors.length = (nextPairs labels pSame pDiff source).length →
      ∃ g, LabeledGraph.ofEdges kind nodes (integerPairs (nextPairs labels pSame pDiff source))
          edgeVectors = .ok g ∧
        g.edges.pairs = nextPairs labels pSame pDiff source ∧ g.edges.hasSelfLoop = false) ∧
    (DrawsInUnit source labels.length →
      (Binary64.value? pDiff = some 0 → ∀ i j,
        (i, j) ∈ nextPairs labels pSame pDiff source → labels[i]? = labels[j]?) ∧
      (Binary64.value? pSame = some 1 → Binary64.value? pDiff = some 1 →
        (∀ i j, i < j → j < labels.length → (i, j) ∈ nextPairs labels pSame pDiff source) ∧
        (nextPairs labels pSame pDiff source).length =
          labels.length * (labels.length - 1) / 2)) := by
  refine ⟨fun i j => mem_nextPairs_iff, pairwise_nextPairs, fun _ => nextPairs_congr,
    fun _ _ _ => exists_ofEdges_nextPairs, fun hdraws => ⟨?_, ?_⟩⟩
  · intro hzero i j hmem
    exact label_eq_of_mem_nextPairs hdraws hzero hmem
  · intro hsame hdiff
    have hall : ∀ i j, i < j → j < labels.length →
        (i, j) ∈ nextPairs labels pSame pDiff source :=
      fun i j hlt hj => mem_nextPairs_of_one hdraws hsame hdiff hlt hj
    exact ⟨hall, length_nextPairs_of_forall_mem hall⟩

lemma entry_halves (width i j : ℕ) :
    DrawSource.halves.entry width i j = 1 / Scalar.ofNat 2 := by
  simp [DrawSource.entry, DrawSource.halves, DrawSource.ofCycle, Nat.mod_one]

/-- Halves, but on the diagonal of a table of three rows there is no number. -/
def halvesAroundDiagonal : DrawSource Float :=
  ⟨fun k => if k % 4 = 0 then Binary64.notANumber else 1 / Scalar.ofNat 2, 0⟩

/-- Three nodes are joined by three edges, and by one if different labels are not to be joined. -/
theorem nextPairs_halves :
    DrawsInUnit .halves 3 ∧ (nextPairs [true, false, true] 1 1 .halves).length = 3 ∧
      nextPairs [true, false, true] (1 : Float) 1 halvesAroundDiagonal =
        nextPairs [true, false, true] 1 1 .halves ∧
      (∃ g : LabeledGraph Float, LabeledGraph.ofEdges .dense [.dense [], .dense [], .dense []]
          (integerPairs (nextPairs [true, false, true] 1 1 .halves))
          [.dense [1], .dense [2], .dense [3]] = .ok g ∧
        g.edges.hasSelfLoop = false) ∧
      (0, 1) ∉ nextPairs [true, false, true] 1 0 .halves ∧
      (0, 2) ∈ nextPairs [true, false, true] 1 0 .halves := by
  have hdraws : DrawsInUnit .halves 3 := by
    intro i j _ _
    rw [entry_halves]
    exact ⟨1 / 2, by decide +kernel, by norm_num, by norm_num⟩
  obtain ⟨-, -, hcongr, hgraph, hunit⟩ := nextPairs_eq_pairs_below [true, false, true] 1 1 .halves
  obtain ⟨hmem, -, -, -, hunit'⟩ := nextPairs_eq_pairs_below [true, false, true] 1 0 .halves
  have hlength := ((hunit hdraws).2 Binary64.value?_one Binary64.value?_one).2
  obtain ⟨g, hg, -, hloop⟩ := hgraph .dense [.dense [], .dense [], .dense []]
    [.dense [1], .dense [2], .dense [3]] (by simp [FeatureVector.kind])
    (by simp [FeatureVector.kind]) rfl hlength.symm
  refine ⟨hdraws, hlength, hcongr halvesAroundDiagonal ?_, ⟨g, hg, hloop⟩, ?_, ?_⟩
  · intro i j hlt hj
    have hplace : (i * 3 + j) % 4 ≠ 0 := by
      simp only [List.length_cons, List.length_nil] at hj
      omega
    rw [entry_halves]
    simp [DrawSource.entry, halvesAroundDiagonal, hplace]
  · intro hmem
    have hlabels := (hunit' hdraws).1 Binary64.value?_zero 0 1 hmem
    simp at hlabels
  · exact (hmem 0 2).2 ⟨by decide, by decide, by decide +kernel⟩

end Synthetic

end PottsOracle
