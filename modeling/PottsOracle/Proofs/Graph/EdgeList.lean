import Mathlib.Data.Int.CharZero
import Mathlib.Data.Sym.Sym2
import PottsOracle.Graph.EdgeList

/-!
# Pairs that are an edge list

Pairs are an edge list if they join nodes and no two of them join the same nodes
(`EdgeList.exists_ofPairs_iff`), and they are read back from it (`EdgeList.integers_of_ofPairs`).
Otherwise the first pair that joins the same nodes as one before it is named
(`EdgeList.ofPairs_eq_duplicate_iff`).  Two nodes are joined by one edge at most (`EdgeList.Joins.unique`).
-/

namespace PottsOracle

lemma sameEnds_iff {e f : Nat × Nat} : SameEnds e f ↔ s(e.1, e.2) = s(f.1, f.2) := by
  rw [SameEnds, Sym2.eq_iff, Prod.ext_iff, Prod.ext_iff]

namespace EdgeList

variable {n : Nat} {edges : EdgeList n}

/-- The pairs of an edge list as pairs of integers. -/
def integers (edges : EdgeList n) : List (ℤ × ℤ) := edges.pairs.map fun e => ((e.1 : ℤ), (e.2 : ℤ))

@[simp]
lemma length_integers : edges.integers.length = edges.pairs.length := List.length_map _

lemma countP_integers : edges.integers.countP (fun e => e.1 = e.2) =
    edges.pairs.countP fun e => e.1 = e.2 := by
  rw [integers, List.countP_map]
  refine List.countP_congr fun e _ => ?_
  simp

lemma inRange_of_mem_integers {e : ℤ × ℤ} (h : e ∈ edges.integers) : InRange n e := by
  obtain ⟨p, hp, rfl⟩ := List.mem_map.1 h
  have hlt := edges.lt_of_mem p hp
  refine ⟨?_, ?_, ?_, ?_⟩ <;> dsimp only <;> omega

lemma ends_natCast_iff {a b c d : Nat} :
    s((a : ℤ), (b : ℤ)) = s((c : ℤ), (d : ℤ)) ↔ s(a, b) = s(c, d) := by
  rw [Sym2.eq_iff, Sym2.eq_iff]
  omega

lemma pairwise_integers : edges.integers.Pairwise fun e f => s(e.1, e.2) ≠ s(f.1, f.2) := by
  rw [integers, List.pairwise_map]
  refine edges.distinct.imp ?_
  intro e f hends hsame
  exact hends (sameEnds_iff.2 (ends_natCast_iff.1 hsame))

/-- The nodes of a pair in range. -/
lemma natCast_toNat_ends {e : ℤ × ℤ} (h : InRange n e) :
    (((e.1.toNat : Nat) : ℤ), ((e.2.toNat : Nat) : ℤ)) = e :=
  Prod.ext (Int.toNat_of_nonneg h.1) (Int.toNat_of_nonneg h.2.2.1)

lemma map_natCast_toNat {pairs : List (ℤ × ℤ)} (h : ∀ e ∈ pairs, InRange n e) :
    (pairs.map fun e => (e.1.toNat, e.2.toNat)).map
      (fun e : Nat × Nat => ((e.1 : ℤ), (e.2 : ℤ))) = pairs := by
  rw [List.map_map]
  exact (List.map_congr_left fun e he => natCast_toNat_ends (h e he)).trans (List.map_id pairs)

/-- Pairs are read as the edge list that has them. -/
lemma integers_of_ofPairs {pairs : List (ℤ × ℤ)} (h : ofPairs n pairs = .ok edges) :
    edges.integers = pairs := by
  rw [ofPairs] at h
  split at h
  · rename_i hrange
    dsimp only at h
    split at h
    · cases h
    · cases h
      exact map_natCast_toNat hrange
  · cases h

/-- Pairs of nodes are an edge list if no two of them join the same nodes. -/
theorem exists_ofPairs_iff {pairs : List (ℤ × ℤ)} :
    (∃ edges, ofPairs n pairs = .ok edges) ↔
      (∀ e ∈ pairs, InRange n e) ∧ pairs.Pairwise fun e f => s(e.1, e.2) ≠ s(f.1, f.2) := by
  constructor
  · rintro ⟨edges, h⟩
    rw [← integers_of_ofPairs h]
    exact ⟨fun e => inRange_of_mem_integers, pairwise_integers⟩
  · rintro ⟨hrange, hdistinct⟩
    have hends : (pairs.map fun e => (e.1.toNat, e.2.toNat)).Pairwise fun e f =>
        ¬ SameEnds e f := by
      rw [← map_natCast_toNat hrange, List.pairwise_map] at hdistinct
      refine hdistinct.imp ?_
      intro e f hne hsame
      exact hne (ends_natCast_iff.2 (sameEnds_iff.1 hsame))
    have hnone := firstRepeat?_eq_none_iff.2 ⟨fun e _ => List.not_mem_nil, hends⟩
    rw [ofPairs, dif_pos hrange]
    dsimp only
    split
    · rename_i hsome
      rw [hnone] at hsome
      cases hsome
    · exact ⟨_, rfl⟩

/-- What is found is the first pair whose key has been seen. -/
lemma firstRepeat?_eq_some_iff {seen pairs : List (Nat × Nat)} {e : Nat × Nat} :
    firstRepeat? seen pairs = some e ↔ ∃ before after, pairs = before ++ e :: after ∧
      firstRepeat? seen before = none ∧ (key e ∈ seen ∨ ∃ f ∈ before, SameEnds e f) := by
  induction pairs generalizing seen with
  | nil => simp [firstRepeat?]
  | cons f rest ih =>
    rw [firstRepeat?]
    split
    · rename_i hseen
      constructor
      · rintro ⟨⟩
        exact ⟨[], rest, rfl, rfl, Or.inl hseen⟩
      · rintro ⟨_ | ⟨f', before⟩, after, heq, hnone, -⟩ <;> cases heq
        · rfl
        · rw [firstRepeat?, if_pos hseen] at hnone
          cases hnone
    · rename_i hseen
      rw [ih]
      constructor
      · rintro ⟨before, after, rfl, hnone, hold⟩
        refine ⟨f :: before, after, rfl, by rwa [firstRepeat?, if_neg hseen], ?_⟩
        rcases hold with hold | ⟨f', hf', hends⟩
        · rcases List.mem_cons.1 hold with hkey | hold
          · exact Or.inr ⟨f, List.mem_cons_self, key_eq_key_iff.1 hkey⟩
          · exact Or.inl hold
        · exact Or.inr ⟨f', List.mem_cons_of_mem f hf', hends⟩
      · rintro ⟨_ | ⟨f', before⟩, after, heq, hnone, hold⟩ <;> cases heq
        · rcases hold with hold | ⟨_, hf, -⟩
          · exact absurd hold hseen
          · cases hf
        · rw [firstRepeat?, if_neg hseen] at hnone
          refine ⟨before, after, rfl, hnone, ?_⟩
          rcases hold with hold | ⟨f', hf', hends⟩
          · exact Or.inl (List.mem_cons_of_mem _ hold)
          · rcases List.mem_cons.1 hf' with rfl | hf'
            · exact Or.inl (key_eq_key_iff.2 hends ▸ List.mem_cons_self)
            · exact Or.inr ⟨f', hf', hends⟩

lemma ofPairs_eq_duplicate_iff_firstRepeat? {pairs : List (ℤ × ℤ)} {i j : Nat} :
    ofPairs n pairs = .error (.duplicate i j) ↔ (∀ e ∈ pairs, InRange n e) ∧
      firstRepeat? [] (pairs.map fun e => (e.1.toNat, e.2.toNat)) = some (i, j) := by
  rw [ofPairs]
  split
  · rename_i hrange
    rw [and_iff_right hrange]
    dsimp only
    split
    · rename_i hsome
      rw [hsome]
      simp
    · rename_i hnone
      exact iff_of_false (by simp) (by simp [hnone])
  · rename_i hrange
    exact iff_of_false (by simp) fun h => hrange h.1

lemma firstRepeat?_eq_none_iff_integers {pairs : List (Nat × Nat)} :
    firstRepeat? [] pairs = none ↔
      (pairs.map fun e : Nat × Nat => ((e.1 : ℤ), (e.2 : ℤ))).Pairwise fun e f =>
        s(e.1, e.2) ≠ s(f.1, f.2) := by
  simp only [firstRepeat?_eq_none_iff, List.not_mem_nil, not_false_eq_true, implies_true, true_and,
    List.pairwise_map, ne_eq, ends_natCast_iff, sameEnds_iff]

/-- The pair that an error names is the first one that joins the same nodes as a pair before it. -/
theorem ofPairs_eq_duplicate_iff {pairs : List (ℤ × ℤ)} {i j : Nat} :
    ofPairs n pairs = .error (.duplicate i j) ↔ (∀ e ∈ pairs, InRange n e) ∧
      ∃ before after, pairs = before ++ ((i : ℤ), (j : ℤ)) :: after ∧
        (before.Pairwise fun e f => s(e.1, e.2) ≠ s(f.1, f.2)) ∧
        ∃ f ∈ before, s((i : ℤ), (j : ℤ)) = s(f.1, f.2) := by
  rw [ofPairs_eq_duplicate_iff_firstRepeat?]
  refine and_congr_right fun hrange => ?_
  have hpairs := map_natCast_toNat hrange
  generalize pairs.map (fun e => (e.1.toNat, e.2.toNat)) = nodes at hpairs ⊢
  subst hpairs
  rw [firstRepeat?_eq_some_iff]
  constructor
  · rintro ⟨before, after, rfl, hnone, hold⟩
    obtain ⟨f, hf, hends⟩ := hold.resolve_left List.not_mem_nil
    exact ⟨_, _, by rw [List.map_append, List.map_cons], firstRepeat?_eq_none_iff_integers.1 hnone,
      _, List.mem_map_of_mem hf, ends_natCast_iff.2 (sameEnds_iff.1 hends)⟩
  · rintro ⟨_, _, heq, hbefore, _, hmem, hends⟩
    obtain ⟨before, rest, rfl, rfl, hrest⟩ := List.map_eq_append_iff.1 heq
    obtain ⟨⟨i', j'⟩, after, rfl, hij, rfl⟩ := List.map_eq_cons_iff.1 hrest
    obtain ⟨f, hf, rfl⟩ := List.mem_map.1 hmem
    obtain ⟨hi, hj⟩ := Prod.mk.inj hij
    obtain rfl := Int.ofNat_inj.1 hi
    obtain rfl := Int.ofNat_inj.1 hj
    exact ⟨before, after, rfl, firstRepeat?_eq_none_iff_integers.2 hbefore,
      Or.inr ⟨f, hf, sameEnds_iff.2 (ends_natCast_iff.1 hends)⟩⟩

/-- Without edges none is repeated. -/
lemma distinct_nil : ([] : List (Nat × Nat)).Pairwise fun e f => ¬SameEnds e f := .nil

/-- The one edge of two nodes is not repeated. -/
lemma distinct_pair : [((1 : Nat), (0 : Nat))].Pairwise fun e f => ¬SameEnds e f := by simp

/-! ## Joined nodes -/

/-- The edge of a number joins two nodes, in one direction or the other. -/
def Joins (edges : EdgeList n) (k i j : Nat) : Prop :=
  edges.pairs[k]? = some (i, j) ∨ edges.pairs[k]? = some (j, i)

lemma joins_comm {k i j : Nat} : edges.Joins k i j ↔ edges.Joins k j i := or_comm

lemma Joins.lt_length {k i j : Nat} (h : edges.Joins k i j) : k < edges.pairs.length := by
  rcases h with h | h <;> exact (List.getElem?_eq_some_iff.1 h).1

/-- The number of an edge is said by its two nodes. -/
lemma Joins.unique {k l i j : Nat} (hk : edges.Joins k i j) (hl : edges.Joins l i j) : k = l := by
  by_contra hne
  have hends : ∀ {k}, edges.Joins k i j → ∃ h : k < edges.pairs.length,
      s(edges.pairs[k].1, edges.pairs[k].2) = s(i, j) := by
    rintro k (hk | hk)
    · obtain ⟨hlt, heq⟩ := List.getElem?_eq_some_iff.1 hk
      exact ⟨hlt, by rw [heq]⟩
    · obtain ⟨hlt, heq⟩ := List.getElem?_eq_some_iff.1 hk
      exact ⟨hlt, by rw [heq, Sym2.eq_swap]⟩
  have hdistinct := List.pairwise_iff_getElem.1 edges.distinct
  obtain ⟨hklt, hkends⟩ := hends hk
  obtain ⟨hllt, hlends⟩ := hends hl
  rcases lt_or_gt_of_ne hne with hlt | hlt
  · exact hdistinct k l hklt hllt hlt (sameEnds_iff.2 (hkends.trans hlends.symm))
  · exact hdistinct l k hllt hklt hlt (sameEnds_iff.2 (hlends.trans hkends.symm))

lemma joins_iff_integers {k i j : Nat} : edges.Joins k i j ↔
    edges.integers[k]? = some ((i : ℤ), (j : ℤ)) ∨
      edges.integers[k]? = some ((j : ℤ), (i : ℤ)) := by
  simp [Joins, integers, Prod.ext_iff]

end EdgeList

end PottsOracle
