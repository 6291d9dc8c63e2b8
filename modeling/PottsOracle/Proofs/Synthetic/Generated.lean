import PottsOracle.Proofs.Oracle.Ready
import PottsOracle.Synthetic.Generator

/-!
# What is generated

A sample is determined by the generator and the draws that are left: its labels, its edges and the rows
of numbers that become its vectors.  Every label and every entry of a row is said by one draw
(`Synthetic.nextLabel`, `Synthetic.nodeEntry`, `Synthetic.edgeEntry`).  `Synthetic.IsDrawn` says that a
sample holds them, and `Synthetic.exists_samples` says that generating never fails and gives one such
sample after the other.

The one thing that could fail is the edge list.  It cannot, because pairs are drawn row by row above the
diagonal, so that they come in strictly increasing order (`Synthetic.pairwise_sampleEdges`).
-/

namespace PottsOracle

variable {K : Type}

/-! ## Tables of draws -/

namespace DrawSource

/-- An entry of the table with the next numbers, which is filled row by row. -/
def entry (source : DrawSource K) (width i j : ℕ) : K :=
  source.number (source.drawn + i * width + j)

variable {source : DrawSource K} {rows width i j : ℕ}

lemma getElem?_nextRows (hi : i < rows) :
    (source.nextRows rows width)[i]? = some ((source.skip (i * width)).next width) := by
  rw [nextRows, List.getElem?_map, List.getElem?_range hi, Option.map_some]

lemma next_skip : (source.skip (i * width)).next width =
    (List.range width).map (source.entry width i) := rfl

lemma getElem?_next_skip (hj : j < width) :
    ((source.skip (i * width)).next width)[j]? = some (source.entry width i j) := by
  rw [next_skip, List.getElem?_map, List.getElem?_range hj, Option.map_some]

end DrawSource

namespace Synthetic

variable [Scalar K]

/-! ## Edges -/

section Edges

variable {labels : Labeling} {pSame pDiff : K} {draws : List (List K)}

/-- A pair is drawn if it lies above the diagonal and its draw is below its probability. -/
lemma mem_sampleEdges_iff {i j : ℕ} :
    (i, j) ∈ sampleEdges labels pSame pDiff draws ↔
      i < j ∧ ∃ a b row u, labels[i]? = some a ∧ labels[j]? = some b ∧ draws[i]? = some row ∧
        row[j]? = some u ∧ Scalar.lt u (if a = b then pSame else pDiff) = true := by
  simp only [sampleEdges, List.mem_flatMap, List.mem_filterMap, Prod.exists,
    List.mem_zipIdx_iff_getElem?, List.getElem?_zip_eq_some, Option.ite_none_right_eq_some,
    Option.some.injEq, Prod.mk.injEq]
  constructor
  · rintro ⟨a, row, i', ⟨ha, hrow⟩, b, u, j', ⟨hb, hu⟩, ⟨hlt, hdraw⟩, rfl, rfl⟩
    exact ⟨hlt, a, b, row, u, ha, hb, hrow, hu, hdraw⟩
  · rintro ⟨hlt, a, b, row, u, ha, hb, hrow, hu, hdraw⟩
    exact ⟨a, row, i, ⟨ha, hrow⟩, b, u, j, ⟨hb, hu⟩, ⟨hlt, hdraw⟩, rfl, rfl⟩

/-- Pairs are drawn in strictly increasing lexicographic order. -/
lemma pairwise_sampleEdges :
    (sampleEdges labels pSame pDiff draws).Pairwise fun e f => toLex e < toLex f := by
  simp only [sampleEdges, List.pairwise_flatMap, List.pairwise_filterMap]
  constructor
  · -- within a row the second ends grow
    rintro ⟨⟨a, row⟩, i⟩ -
    refine (pairwise_snd_zipIdx _).imp ?_
    rintro ⟨⟨b, u⟩, j⟩ ⟨⟨b', u'⟩, j'⟩ hlt e he f hf
    cases (Option.ite_none_right_eq_some.1 he).2
    cases (Option.ite_none_right_eq_some.1 hf).2
    exact Prod.Lex.toLex_lt_toLex.2 (Or.inr ⟨rfl, hlt⟩)
  · -- from row to row the first ends grow
    refine (pairwise_snd_zipIdx _).imp ?_
    rintro ⟨⟨a, row⟩, i⟩ ⟨⟨a', row'⟩, i'⟩ hlt e he f hf
    obtain ⟨p, -, he⟩ := List.mem_filterMap.1 he
    obtain ⟨q, -, hf⟩ := List.mem_filterMap.1 hf
    cases (Option.ite_none_right_eq_some.1 he).2
    cases (Option.ite_none_right_eq_some.1 hf).2
    exact Prod.Lex.toLex_lt_toLex.2 (Or.inl hlt)

/-- The ends of a pair that is drawn are different nodes. -/
lemma lt_of_mem_sampleEdges {e : ℕ × ℕ} (h : e ∈ sampleEdges labels pSame pDiff draws) :
    e.1 < e.2 ∧ e.2 < labels.length := by
  obtain ⟨hlt, a, b, row, u, -, hb, -⟩ := mem_sampleEdges_iff.1 h
  exact ⟨hlt, (List.getElem?_eq_some_iff.1 hb).1⟩

/-- Pairs that are drawn are an edge list. -/
lemma exists_ofPairs_sampleEdges {n : ℕ} (h : labels.length = n) :
    ∃ edges, EdgeList.ofPairs n (integerPairs (sampleEdges labels pSame pDiff draws)) =
      .ok edges := by
  refine EdgeList.exists_ofPairs_iff.2 ⟨?_, ?_⟩
  · intro e he
    obtain ⟨p, hp, rfl⟩ := List.mem_map.1 he
    have hlt := lt_of_mem_sampleEdges hp
    refine ⟨?_, ?_, ?_, ?_⟩ <;> dsimp only <;> omega
  · rw [integerPairs, List.pairwise_map]
    refine pairwise_sampleEdges.imp_of_mem ?_
    intro e f he hf hbefore
    have hlt := (lt_of_mem_sampleEdges he).1
    have hlt' := (lt_of_mem_sampleEdges hf).1
    rw [Prod.Lex.toLex_lt_toLex] at hbefore
    rw [ne_eq, EdgeList.ends_natCast_iff, Sym2.eq_iff]
    omega

omit [Scalar K] in
lemma pairs_eq_of_integers {n : ℕ} {edges : EdgeList n} {pairs : List (ℕ × ℕ)}
    (h : edges.integers = integerPairs pairs) : edges.pairs = pairs := by
  refine List.map_injective_iff.2 ?_ h
  intro e f hef
  simpa [Prod.ext_iff] using hef

end Edges

/-! ## Rows -/

section Rows

variable {source : DrawSource K} {noise : K} {label : Bool} {width i n : ℕ}

/-- An entry of a node vector: noise times a draw, and one more in the first place if the node is true
and in the second place if it is false. -/
def nodeEntry (noise : K) (label : Bool) (place : ℕ) (draw : K) : K :=
  if place = (if label then 0 else 1) then noise * draw + 1 else noise * draw

/-- An entry of an edge vector: a one in the first place and the size of noise elsewhere. -/
def edgeEntry (noise : K) (place : ℕ) (draw : K) : K :=
  if place = 0 then 1 else Scalar.abs (noise * draw)

lemma nodeEntries_next_skip : nodeEntries noise label ((source.skip (i * width)).next width) =
    (List.range width).map fun k => nodeEntry noise label k (source.entry width i k) := by
  rw [DrawSource.next_skip, nodeEntries, List.map_map]
  refine List.ext_getElem (by simp) fun k _ _ => ?_
  rw [List.getElem_modify]
  simp [nodeEntry, eq_comm]

lemma edgeEntries_next_skip : edgeEntries noise ((source.skip (i * width)).next width) =
    (List.range width).map fun k => edgeEntry noise k (source.entry width i k) := by
  rw [DrawSource.next_skip, edgeEntries, List.map_map]
  refine List.ext_getElem (by simp) fun k _ _ => ?_
  rw [List.getElem_set]
  simp [edgeEntry, eq_comm]

end Rows

/-! ## One sample -/

variable (g : Generator K) (draws : Draws K)

/-- The label of a node of the next sample: true if its draw is below one half. -/
def nextLabel (i : ℕ) : Bool :=
  Scalar.lt (draws.uniform.number (draws.uniform.drawn + i)) (1 / Scalar.ofNat 2)

/-- The labels of the next sample. -/
def nextLabels : Labeling := (List.range g.nodes).map (nextLabel draws)

/-- The edges of the next sample. -/
def nextEdges : List (ℕ × ℕ) :=
  sampleEdges (nextLabels g draws) g.pSame g.pDiff
    ((draws.uniform.skip g.nodes).nextRows g.nodes g.nodes)

/-- The rows of numbers for the nodes of the next sample. -/
def nodeRows : List (List K) :=
  (List.range g.nodes).map fun i => (List.range g.nodeDims).map fun k =>
    nodeEntry g.noise (nextLabel draws i) k (draws.normal.entry g.nodeDims i k)

/-- The rows of numbers for the edges of the next sample. -/
def edgeRows : List (List K) :=
  (List.range (nextEdges g draws).length).map fun e => (List.range g.edgeDims).map fun k =>
    edgeEntry g.noise k ((draws.normal.skip (g.nodes * g.nodeDims)).entry g.edgeDims e k)

/-- The draws that the next sample leaves. -/
def rest : Draws K where
  uniform := (draws.uniform.skip g.nodes).skip (g.nodes * g.nodes)
  normal := (draws.normal.skip (g.nodes * g.nodeDims)).skip ((nextEdges g draws).length * g.edgeDims)

/-- A sample holds what is drawn next. -/
structure IsDrawn (s : Sample K) : Prop where
  truth_eq : s.truth = nextLabels g draws
  kind_eq : s.graph.kind = g.kind
  nodes_eq : s.graph.nodes = (nodeRows g draws).map (vectorOf g.kind)
  pairs_eq : s.graph.edges.pairs = nextEdges g draws
  edgeVectors_eq : s.graph.edgeVectors = (edgeRows g draws).map (vectorOf g.kind)

variable {g draws}

lemma length_nextLabels : (nextLabels g draws).length = g.nodes := by
  simp [nextLabels]

lemma length_nodeRows : (nodeRows g draws).length = g.nodes := by
  simp [nodeRows]

lemma length_edgeRows : (edgeRows g draws).length = (nextEdges g draws).length := by
  simp [edgeRows]

@[simp]
lemma kind_vectorOf (kind : FeatureKind) (entries : List K) :
    (vectorOf kind entries).kind = kind := by
  cases kind <;> rfl

lemma labelsOf_next : labelsOf (draws.uniform.next g.nodes) = nextLabels g draws := List.map_map

lemma zipWith_nodeEntries : (nextLabels g draws).zipWith (nodeEntries g.noise)
    (draws.normal.nextRows g.nodes g.nodeDims) = nodeRows g draws := by
  rw [nextLabels, DrawSource.nextRows, List.zipWith_map, List.zipWith_self]
  simp only [nodeEntries_next_skip]
  rfl

lemma map_edgeEntries : ((draws.normal.skip (g.nodes * g.nodeDims)).nextRows
    (nextEdges g draws).length g.edgeDims).map (edgeEntries g.noise) = edgeRows g draws := by
  rw [DrawSource.nextRows, List.map_map]
  exact List.map_congr_left fun e _ => edgeEntries_next_skip

lemma sample_eq : sample g draws =
    LabeledGraph.ofEdges g.kind ((nodeRows g draws).map (vectorOf g.kind))
        (integerPairs (nextEdges g draws)) ((edgeRows g draws).map (vectorOf g.kind)) >>=
      fun graph => .ok (⟨graph, nextLabels g draws⟩, rest g draws) := by
  rw [sample, labelsOf_next, ← zipWith_nodeEntries, List.map_zipWith, ← map_edgeEntries,
    List.map_map]
  rfl

/-- Generating a sample does not fail. -/
lemma exists_sample : ∃ s, sample g draws = .ok (s, rest g draws) ∧ IsDrawn g draws s := by
  have hkinds : ∀ rows : List (List K), ∀ v ∈ rows.map (vectorOf g.kind), v.kind = g.kind := by
    intro rows v hv
    obtain ⟨row, -, rfl⟩ := List.mem_map.1 hv
    exact kind_vectorOf g.kind row
  have hcount : (integerPairs (nextEdges g draws)).length =
      ((edgeRows g draws).map (vectorOf g.kind)).length := by
    rw [integerPairs, List.length_map, List.length_map, length_edgeRows]
  have hlabels : (nextLabels g draws).length =
      ((nodeRows g draws).map (vectorOf g.kind)).length := by
    rw [List.length_map, length_nodeRows, length_nextLabels]
  obtain ⟨graph, hgraph⟩ := (LabeledGraph.exists_ofEdges_iff (hkinds _) (hkinds _)).2
    ⟨hcount, exists_ofPairs_sampleEdges hlabels⟩
  obtain ⟨-, hkind, hnodes, hintegers, hvectors⟩ := LabeledGraph.ofEdges_eq_ok hgraph
  refine ⟨⟨graph, nextLabels g draws⟩, ?_, ?_⟩
  · rw [sample_eq]
    exact bind_eq_ok_iff.2 ⟨graph, hgraph, rfl⟩
  · exact ⟨rfl, hkind, hnodes, pairs_eq_of_integers hintegers, hvectors⟩

/-- Generating samples does not fail: one after the other is drawn. -/
lemma exists_samples (count : ℕ) (draws : Draws K) :
    ∃ drawn, samples g count draws = .ok drawn ∧
      List.Forall₂ (IsDrawn g) (List.iterate (rest g) draws count) drawn := by
  induction count generalizing draws with
  | zero => exact ⟨[], rfl, .nil⟩
  | succ count ih =>
    have hsample : ∃ s, sample g draws = .ok (s, rest g draws) ∧ IsDrawn g draws s := exists_sample
    obtain ⟨first, hfirst, hdrawn⟩ := hsample
    obtain ⟨others, hothers, hall⟩ := ih (rest g draws)
    refine ⟨first :: others, ?_, .cons hdrawn hall⟩
    exact bind_eq_ok_iff.2 ⟨_, hfirst, bind_eq_ok_iff.2 ⟨others, hothers, rfl⟩⟩

lemma IsDrawn.order_eq {s : Sample K} (h : IsDrawn g draws s) : s.graph.order = g.nodes := by
  rw [LabeledGraph.order, h.nodes_eq, List.length_map, length_nodeRows]

lemma IsDrawn.count_eq {s : Sample K} (h : IsDrawn g draws s) :
    s.graph.edges.pairs.length = s.graph.edgeVectors.length := by
  rw [h.pairs_eq, h.edgeVectors_eq, List.length_map, length_edgeRows]

end Synthetic

end PottsOracle
