import Mathlib.Data.List.TakeWhile
import PottsOracle.Proofs.Arith.Exact
import PottsOracle.Proofs.Traverse
import PottsOracle.Feature.Joint

/-!
# The score of a joint feature vector

Over the rationals a contribution changes the score of a joint feature vector by the score of what
is contributed, with the sign of the block (`FeatureLayout.contribute_score`).  This is one step;
`FeatureLayout.contributeAll_score` is the run.  Both need only that the contributed vectors have a
score: such a vector fits its block, and the blocks are as long as they should be.
-/

namespace PottsOracle

namespace FeatureBlock

lemma signed_mul (block : FeatureBlock) (w x : Rat) : w * block.signed x = block.signed (w * x) := by
  cases block with
  | node => rfl
  | edge => exact mul_neg w x

lemma dot_map_signed (block : FeatureBlock) (xs ws : List Rat) :
    Scalar.dot (xs.map block.signed) ws = block.signed (Scalar.dot ws xs) := by
  rw [Scalar.dot_comm ws]
  cases block with
  | node => exact congrArg (Scalar.dot · ws) (List.map_id xs)
  | edge => exact Scalar.dot_map_neg xs ws

lemma sum_map_signed (block : FeatureBlock) (xs : List Rat) :
    (xs.map block.signed).sum = block.signed xs.sum := by
  cases block with
  | node => exact congrArg List.sum (List.map_id xs)
  | edge => exact (List.sum_neg xs).symm

end FeatureBlock

namespace FeatureLayout

variable {layout : FeatureLayout} {block : FeatureBlock} {weights : List Rat}

instance {K : Type} (layout : FeatureLayout) (block : FeatureBlock) (v : FeatureVector K) :
    Decidable (layout.Fits block v) :=
  decidable_of_iff (layout.misfit? block v = none) misfit?_eq_none_iff

/-! ## Vectors that have a score -/

section

variable {K : Type} [Scalar K] {weights : List K}

lemma blockScore_dense_eq_ok_iff {entries : List K} {s : K} :
    layout.blockScore block weights (.dense entries) = .ok s ↔
      entries.length = layout.dims block ∧
        (layout.blockWeights block weights).length = entries.length ∧
        Scalar.dot (layout.blockWeights block weights) entries = s := by
  rw [blockScore]
  by_cases hdims : (entries.length : ℤ) = layout.dims block
  · by_cases hlength : (layout.blockWeights block weights).length = entries.length
    · simp [hdims, hlength]
    · simp [hdims, hlength]
  · simp [hdims]

lemma termScore_eq_ok_iff {term : ℤ × K} {s : K} :
    layout.termScore block weights term = .ok s ↔
      layout.InBlock block term.1 ∧
        ∃ w, weightAt weights (term.1 + layout.offset block) = .ok w ∧ w * term.2 = s := by
  rw [termScore]
  split
  · rename_i h
    rw [map_eq_ok_iff]
    exact ⟨fun hs => ⟨h, hs⟩, And.right⟩
  · rename_i h
    constructor
    · intro hs
      cases hs
    · exact fun hs => absurd hs.1 h

/-- Only vectors that fit a block have a score in it. -/
lemma fits_of_blockScore {v : FeatureVector K} {s : K}
    (h : layout.blockScore block weights v = .ok s) : layout.Fits block v := by
  cases v with
  | dense entries => exact (blockScore_dense_eq_ok_iff.1 h).1
  | sparse terms =>
    obtain ⟨xs, hxs, -⟩ := map_eq_ok_iff.1 h
    have hterms : List.Forall₂ (fun term x => layout.InBlock block term.1 ∧
        layout.termScore block weights term = .ok x) terms xs :=
      (mapM_eq_ok_iff.1 hxs).imp fun term x hx => ⟨(termScore_eq_ok_iff.1 hx).1, hx⟩
    exact ((List.forall₂_and_left _ _).1 hterms).1

end

lemma blockScore_sparse_eq_ok_iff {terms : List (ℤ × Rat)} {s : Rat} :
    layout.blockScore block weights (.sparse terms) = .ok s ↔
      (∀ term ∈ terms, layout.InBlock block term.1) ∧
        ∃ xs, List.Forall₂ (fun term x =>
          ∃ w, weightAt weights (term.1 + layout.offset block) = .ok w ∧ w * term.2 = x) terms xs ∧
          xs.sum = s := by
  rw [blockScore, map_eq_ok_iff]
  simp only [mapM_eq_ok_iff, Scalar.total_rat, termScore_eq_ok_iff]
  constructor
  · rintro ⟨xs, hxs, hs⟩
    rw [List.forall₂_and_left] at hxs
    exact ⟨hxs.1, xs, hxs.2, hs⟩
  · rintro ⟨hblock, xs, hxs, hs⟩
    exact ⟨xs, (List.forall₂_and_left _ _).2 ⟨hblock, hxs⟩, hs⟩

lemma score_dense_eq_ok_iff {entries : List Rat} {s : Rat} :
    layout.score (.dense entries) weights = .ok s ↔
      weights.length = layout.total ∧ entries.length = weights.length ∧
        Scalar.dot entries weights = s := by
  rw [score, checkWeights]
  by_cases htotal : (weights.length : ℤ) = layout.total
  · by_cases hlength : entries.length = weights.length
    · simp [htotal, hlength, bind, Except.bind]
    · simp [htotal, hlength, bind, Except.bind]
  · simp [htotal, bind, Except.bind]

lemma score_sparse_eq_ok_iff {terms : List (ℤ × Rat)} {s : Rat} :
    layout.score (.sparse terms) weights = .ok s ↔
      weights.length = layout.total ∧
        ∃ xs, List.Forall₂ (fun term x =>
          ∃ w, weightAt weights term.1 = .ok w ∧ w * term.2 = x) terms xs ∧ xs.sum = s := by
  rw [score, checkWeights]
  by_cases htotal : (weights.length : ℤ) = layout.total
  · simp only [htotal, if_true, bind, Except.bind, true_and]
    rw [map_eq_ok_iff]
    simp only [mapM_eq_ok_iff, map_eq_ok_iff, Scalar.total_rat]
  · simp [htotal, bind, Except.bind]

/-! ## One contribution -/

lemma dot_eq_take_add_drop {xs ws : List Rat} (h : xs.length = ws.length) (b : Nat) :
    Scalar.dot xs ws =
      Scalar.dot (xs.take b) (ws.take b) + Scalar.dot (xs.drop b) (ws.drop b) := by
  have htake : (xs.take b).length = (ws.take b).length := by
    rw [List.length_take, List.length_take, h]
  rw [← Scalar.dot_append htake, List.take_append_drop, List.take_append_drop]

/-- Entries are added where the weights of their block are. -/
lemma addToBlock?_eq {all entries : List Rat} (hall : all.length = weights.length)
    (hentries : (layout.blockWeights block weights).length = entries.length) :
    ∃ sums, layout.addToBlock? block all entries = some sums ∧ sums.length = weights.length ∧
      Scalar.dot sums weights =
        Scalar.dot all weights + Scalar.dot entries (layout.blockWeights block weights) := by
  cases block with
  | node =>
    simp only [blockWeights] at hentries ⊢
    generalize hb : layout.boundary weights.length = b at hentries
    have hrange : (all.drop b).length = entries.length := by
      rw [← hentries, List.length_drop, List.length_drop, hall]
    have htake : (all.take b).length = (weights.take b).length := by
      rw [List.length_take, List.length_take, hall]
    refine ⟨all.take b ++ List.zipWith (· + ·) (all.drop b) entries, ?_, ?_, ?_⟩
    · simp only [addToBlock?, hall, hb, addEntries?, if_pos hrange, Option.map_some]
    · rw [List.length_append, List.length_zipWith, hrange, min_self, htake, ← hentries,
        ← List.length_append, List.take_append_drop]
    · calc Scalar.dot (all.take b ++ List.zipWith (· + ·) (all.drop b) entries) weights
          = Scalar.dot (all.take b ++ List.zipWith (· + ·) (all.drop b) entries)
              (weights.take b ++ weights.drop b) := by rw [List.take_append_drop]
        _ = Scalar.dot (all.take b) (weights.take b)
              + (Scalar.dot (all.drop b) (weights.drop b)
                + Scalar.dot entries (weights.drop b)) := by
            rw [Scalar.dot_append htake, Scalar.dot_zipWith_add hrange]
        _ = Scalar.dot all weights + Scalar.dot entries (weights.drop b) := by
            rw [dot_eq_take_add_drop hall b, add_assoc]
  | edge =>
    simp only [blockWeights] at hentries ⊢
    generalize hb : layout.boundary weights.length = b at hentries
    have hrange : (all.take b).length = entries.length := by
      rw [← hentries, List.length_take, List.length_take, hall]
    have htake : (List.zipWith (· + ·) (all.take b) entries).length = (weights.take b).length := by
      rw [List.length_zipWith, hrange, min_self, hentries]
    refine ⟨List.zipWith (· + ·) (all.take b) entries ++ all.drop b, ?_, ?_, ?_⟩
    · simp only [addToBlock?, hall, hb, addEntries?, if_pos hrange, Option.map_some]
    · rw [List.length_append, htake, List.length_drop, hall, ← List.length_drop,
        ← List.length_append, List.take_append_drop]
    · calc Scalar.dot (List.zipWith (· + ·) (all.take b) entries ++ all.drop b) weights
          = Scalar.dot (List.zipWith (· + ·) (all.take b) entries ++ all.drop b)
              (weights.take b ++ weights.drop b) := by rw [List.take_append_drop]
        _ = Scalar.dot (all.take b) (weights.take b) + Scalar.dot entries (weights.take b)
              + Scalar.dot (all.drop b) (weights.drop b) := by
            rw [Scalar.dot_append htake, Scalar.dot_zipWith_add hrange]
        _ = Scalar.dot all weights + Scalar.dot entries (weights.take b) := by
            rw [dot_eq_take_add_drop hall b]
            ring

lemma contribute_dense {all entries : List Rat} {s : Rat} (hall : all.length = weights.length)
    (h : layout.blockScore block weights (.dense entries) = .ok s) :
    ∃ sums, layout.contribute block (.dense all) (.dense entries) = ⟨.dense sums, none⟩ ∧
      sums.length = weights.length ∧
      Scalar.dot sums weights = Scalar.dot all weights + block.signed s := by
  have hmisfit : layout.misfit? block (.dense entries) = none :=
    misfit?_eq_none_iff.2 (fits_of_blockScore h)
  obtain ⟨-, hlength, rfl⟩ := blockScore_dense_eq_ok_iff.1 h
  have hsigned : (layout.blockWeights block weights).length = (entries.map block.signed).length := by
    rwa [List.length_map]
  obtain ⟨sums, hadded, hsums, hdot⟩ := addToBlock?_eq hall hsigned
  refine ⟨sums, ?_, hsums, ?_⟩
  · simp [contribute, hmisfit, hadded]
  · rw [hdot, block.dot_map_signed]

/-- The terms of a vector at the places that its block has in a joint feature vector, with the sign
of the block. -/
def placed (layout : FeatureLayout) (block : FeatureBlock) (terms : List (ℤ × Rat)) :
    List (ℤ × Rat) :=
  terms.map fun term => (term.1 + layout.offset block, block.signed term.2)

/-- No term of a vector that fits is outside its block, so all of them are added. -/
lemma contribute_sparse_eq {terms added : List (ℤ × Rat)} (h : layout.Fits block (.sparse added)) :
    layout.contribute block (.sparse terms) (.sparse added) =
      ⟨.sparse (terms ++ layout.placed block added), none⟩ := by
  have hfitting : added.takeWhile (fun term => layout.InBlock block term.1) = added :=
    List.takeWhile_eq_self_iff.2 fun term hterm => decide_eq_true (h term hterm)
  simp only [contribute, misfit?_eq_none_iff.2 h, hfitting, Option.map_none, placed]

lemma contribute_sparse {terms added : List (ℤ × Rat)} {s t : Rat}
    (hjoint : layout.score (.sparse terms) weights = .ok t)
    (h : layout.blockScore block weights (.sparse added) = .ok s) :
    ∃ sums, layout.contribute block (.sparse terms) (.sparse added) = ⟨.sparse sums, none⟩ ∧
      layout.score (.sparse sums) weights = .ok (t + block.signed s) := by
  have hfits := fits_of_blockScore h
  obtain ⟨-, xs, hxs, rfl⟩ := blockScore_sparse_eq_ok_iff.1 h
  obtain ⟨htotal, ys, hys, rfl⟩ := score_sparse_eq_ok_iff.1 hjoint
  refine ⟨_, contribute_sparse_eq hfits, ?_⟩
  refine score_sparse_eq_ok_iff.2 ⟨htotal, ys ++ xs.map block.signed, List.rel_append hys ?_, ?_⟩
  · rw [placed, List.forall₂_map_left_iff, List.forall₂_map_right_iff]
    refine hxs.imp ?_
    rintro term x ⟨w, hw, rfl⟩
    exact ⟨w, hw, block.signed_mul w term.2⟩
  · rw [List.sum_append, block.sum_map_signed]

/-- A contribution of the same representation changes the score by its own score, with the sign of
the block. -/
theorem contribute_score {joint v : FeatureVector Rat} {s t : Rat} (hkind : v.kind = joint.kind)
    (hjoint : layout.score joint weights = .ok t)
    (h : layout.blockScore block weights v = .ok s) :
    ∃ sums, layout.contribute block joint v = ⟨sums, none⟩ ∧ sums.kind = joint.kind ∧
      layout.score sums weights = .ok (t + block.signed s) := by
  cases joint with
  | dense all =>
    cases v with
    | dense entries =>
      obtain ⟨htotal, hall, rfl⟩ := score_dense_eq_ok_iff.1 hjoint
      obtain ⟨sums, hcontribute, hsums, hdot⟩ := contribute_dense hall h
      exact ⟨.dense sums, hcontribute, rfl, score_dense_eq_ok_iff.2 ⟨htotal, hsums, hdot⟩⟩
    | sparse added => cases hkind
  | sparse terms =>
    cases v with
    | dense entries => cases hkind
    | sparse added =>
      obtain ⟨sums, hcontribute, hscore⟩ := contribute_sparse hjoint h
      exact ⟨.sparse sums, hcontribute, rfl, hscore⟩

/-! ## All contributions -/

/-- Contributions of one representation that all have a score change the score by the sum of them,
with the signs of their blocks. -/
theorem contributeAll_score {value : FeatureBlock × FeatureVector Rat → Rat}
    {contributions : List (FeatureBlock × FeatureVector Rat)} {joint : FeatureVector Rat} {t : Rat}
    (hjoint : layout.score joint weights = .ok t)
    (h : ∀ c ∈ contributions,
      c.2.kind = joint.kind ∧ layout.blockScore c.1 weights c.2 = .ok (value c)) :
    ∃ sums, layout.contributeAll joint contributions = .ok sums ∧ sums.kind = joint.kind ∧
      layout.score sums weights =
        .ok (t + (contributions.map fun c => c.1.signed (value c)).sum) := by
  induction contributions generalizing joint t with
  | nil => exact ⟨joint, rfl, rfl, by simpa using hjoint⟩
  | cons c contributions ih =>
    obtain ⟨hkind, hscore⟩ := h c List.mem_cons_self
    obtain ⟨next, hnext, hnextKind, hnextScore⟩ := contribute_score hkind hjoint hscore
    obtain ⟨sums, hsums, hsumsKind, hsumsScore⟩ := ih hnextScore fun d hd => by
      rw [hnextKind]
      exact h d (List.mem_cons_of_mem c hd)
    refine ⟨sums, ?_, hsumsKind.trans hnextKind, ?_⟩
    · rw [contributeAll, hnext]
      exact hsums
    · rw [hsumsScore, List.map_cons, List.sum_cons, add_assoc]

lemma score_zeros (kind : FeatureKind) (h : weights.length = layout.total) :
    layout.score (layout.zeros kind) weights = .ok 0 := by
  cases kind with
  | dense =>
    refine score_dense_eq_ok_iff.2 ⟨h, ?_, Scalar.dot_replicate_zero _ _⟩
    rw [List.length_replicate]
    omega
  | sparse => exact score_sparse_eq_ok_iff.2 ⟨h, [], .nil, rfl⟩

/-! ## Vectors that fit -/

lemma forall_dims_nonneg_iff :
    (∀ block, 0 ≤ layout.dims block) ↔ 0 ≤ layout.nodeDims ∧ 0 ≤ layout.edgeDims := by
  constructor
  · exact fun h => ⟨h .node, h .edge⟩
  · rintro ⟨hnode, hedge⟩ block
    cases block with
    | node => exact hnode
    | edge => exact hedge

lemma total_nonneg (hdims : ∀ block, 0 ≤ layout.dims block) : 0 ≤ layout.total :=
  add_nonneg (hdims .edge) (hdims .node)

/-- With as many entries as the layout has the cut between the blocks is where it should be. -/
lemma boundary_eq {n : ℕ} (h : n = layout.total) (hnode : 0 ≤ layout.nodeDims)
    (hedge : 0 ≤ layout.edgeDims) : (layout.boundary n : ℤ) = layout.edgeDims := by
  obtain ⟨m, hm⟩ := Int.eq_ofNat_of_zero_le hedge
  rw [total] at h
  rw [boundary, hm, Place.cut_natCast]
  omega

variable {K : Type} {weights : List K}

lemma length_blockWeights (h : weights.length = layout.total) (hnode : 0 ≤ layout.nodeDims)
    (hedge : 0 ≤ layout.edgeDims) :
    (layout.blockWeights block weights).length = layout.dims block := by
  have hcut := boundary_eq h hnode hedge
  rw [total] at h
  cases block with
  | node =>
    rw [blockWeights, List.length_drop, dims]
    omega
  | edge =>
    rw [blockWeights, List.length_take, dims]
    omega

variable [Scalar K]

lemma kind_zeros (kind : FeatureKind) : (layout.zeros kind : FeatureVector K).kind = kind := by
  cases kind <;> rfl

/-- The weight of an index inside a block is the one that the block has at it. -/
lemma weightAt_eq_of_inBlock (h : weights.length = layout.total) (hnode : 0 ≤ layout.nodeDims)
    (hedge : 0 ≤ layout.edgeDims) {i : ℤ} (hi : layout.InBlock block i) :
    weightAt weights (i + layout.offset block) =
      .ok ((layout.blockWeights block weights).getD i.toNat 0) := by
  have hcut := boundary_eq h hnode hedge
  obtain ⟨hi0, hi⟩ := hi
  rw [total] at h
  cases block with
  | node =>
    simp only [offset, dims, blockWeights] at hi ⊢
    have hplace : (i + layout.edgeDims).toNat = layout.boundary weights.length + i.toNat := by omega
    have hlt : layout.boundary weights.length + i.toNat < weights.length := by omega
    rw [weightAt, Place.get?, if_pos (by omega), hplace, List.getD_eq_getElem?_getD,
      List.getElem?_drop, List.getElem?_eq_getElem hlt]
    rfl
  | edge =>
    simp only [offset, dims, blockWeights, add_zero] at hi ⊢
    have hlt : i.toNat < weights.length := by omega
    rw [weightAt, Place.get?, if_pos hi0, List.getD_eq_getElem?_getD,
      List.getElem?_take_of_lt (by omega), List.getElem?_eq_getElem hlt]
    rfl

/-- A vector that fits its block has a score. -/
lemma exists_blockScore (h : weights.length = layout.total) (hnode : 0 ≤ layout.nodeDims)
    (hedge : 0 ≤ layout.edgeDims) {v : FeatureVector K} (hfits : layout.Fits block v) :
    ∃ s, layout.blockScore block weights v = .ok s := by
  cases v with
  | dense entries =>
    have hentries : (entries.length : ℤ) = layout.dims block := hfits
    have hlength : ((layout.blockWeights block weights).length : ℤ) = layout.dims block :=
      length_blockWeights h hnode hedge
    exact ⟨_, blockScore_dense_eq_ok_iff.2 ⟨hentries, by omega, rfl⟩⟩
  | sparse terms =>
    have hterms : ∀ term ∈ terms, ∃ x, layout.termScore block weights term = .ok x := by
      intro term hterm
      exact ⟨_, termScore_eq_ok_iff.2 ⟨hfits term hterm, _,
        weightAt_eq_of_inBlock h hnode hedge (hfits term hterm), rfl⟩⟩
    obtain ⟨xs, hxs⟩ := exists_forall₂ hterms
    exact ⟨_, map_eq_ok_iff.2 ⟨xs, mapM_eq_ok_iff.2 hxs, rfl⟩⟩

end FeatureLayout

end PottsOracle
