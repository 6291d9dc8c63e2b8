import Mathlib.Data.List.GetD
import PottsOracle.Proofs.Feature.JointScore
import PottsOracle.Proofs.Feature.Terms
import PottsOracle.Graph.JointVector

/-!
# The entries of a joint feature vector

A dense joint feature vector is known by its scores: two lists of entries that have the same score
under all weights are equal (`Scalar.eq_of_dot_eq`).  A sparse one is the list of all terms that
were contributed, in order (`FeatureLayout.contributeAll_sparse_eq`).  Spread over the layout, its
terms have the score of the sparse vector (`FeatureLayout.score_sparse_eq_dot`), so that both
representations are compared by their scores.
-/

namespace PottsOracle

namespace Scalar

/-- Entries are determined by their sums under all weights. -/
lemma eq_of_dot_eq {xs ys : List Rat} (hlength : xs.length = ys.length)
    (h : ∀ ws : List Rat, ws.length = xs.length → Scalar.dot xs ws = Scalar.dot ys ws) :
    xs = ys := by
  induction xs generalizing ys with
  | nil => exact (List.length_eq_zero_iff.1 hlength.symm).symm
  | cons x xs ih =>
    cases ys with
    | nil => cases hlength
    | cons y ys =>
      have hlength : xs.length = ys.length := by simpa using hlength
      simp only [dot_rat] at h ih
      have hzero : ∀ zs : List Rat,
          (List.zipWith (· * ·) zs (List.replicate xs.length 0)).sum = 0 := by
        intro zs
        rw [← dot_rat, dot_comm, dot_replicate_zero]
      have hhead : x = y := by
        -- the weight of the first entry alone
        simpa [hzero] using h (1 :: List.replicate xs.length 0) (by simp)
      have htail : xs = ys := ih hlength fun ws hws => by
        simpa using h (0 :: ws) (by simpa using hws)
      rw [hhead, htail]

end Scalar

namespace FeatureLayout

variable {layout : FeatureLayout} {weights : List Rat}

/-- A joint feature vector has the layout: as many entries, or terms for its entries only. -/
def Holds {K : Type} (layout : FeatureLayout) : FeatureVector K → Prop
  | .dense entries => entries.length = layout.total
  | .sparse terms => ∀ term ∈ terms, 0 ≤ term.1 ∧ term.1 < layout.total

/-! ## Contributed terms -/

/-- All terms of some contributions, in order. -/
def allPlaced (layout : FeatureLayout) (contributions : List (FeatureBlock × FeatureVector Rat)) :
    List (ℤ × Rat) :=
  contributions.flatMap fun c => layout.placed c.1 c.2.terms

/-- A sparse joint feature vector collects the terms of all contributions. -/
theorem contributeAll_sparse_eq {terms : List (ℤ × Rat)}
    {contributions : List (FeatureBlock × FeatureVector Rat)}
    (h : ∀ c ∈ contributions, c.2.kind = .sparse ∧ layout.Fits c.1 c.2) :
    layout.contributeAll (.sparse terms) contributions =
      .ok (.sparse (terms ++ layout.allPlaced contributions)) := by
  induction contributions generalizing terms with
  | nil => simp [contributeAll, allPlaced]
  | cons c contributions ih =>
    obtain ⟨block, v⟩ := c
    obtain ⟨hkind, hfits⟩ := h (block, v) List.mem_cons_self
    cases v with
    | dense entries => cases hkind
    | sparse added =>
      rw [contributeAll, contribute_sparse_eq hfits]
      dsimp only
      rw [ih fun d hd => h d (List.mem_cons_of_mem _ hd), List.append_assoc]
      rfl

/-- An index inside a block has a place in the layout. -/
lemma placed_of_inBlock (hdims : ∀ block, 0 ≤ layout.dims block) {block : FeatureBlock} {i : ℤ}
    (h : layout.InBlock block i) :
    0 ≤ i + layout.offset block ∧ i + layout.offset block < layout.total := by
  obtain ⟨hlow, hhigh⟩ := h
  have hnode := hdims .node
  have hedge := hdims .edge
  cases block with
  | node =>
    simp only [dims, offset, total] at hhigh hnode hedge ⊢
    omega
  | edge =>
    simp only [dims, offset, total] at hhigh hnode hedge ⊢
    omega

/-- Terms of vectors that fit have places in the layout. -/
lemma holds_allPlaced (hdims : ∀ block, 0 ≤ layout.dims block)
    {contributions : List (FeatureBlock × FeatureVector Rat)}
    (h : ∀ c ∈ contributions, layout.Fits c.1 c.2) :
    layout.Holds (.sparse (layout.allPlaced contributions)) := by
  intro term hterm
  obtain ⟨⟨block, v⟩, hmem, hplaced⟩ := List.mem_flatMap.1 hterm
  obtain ⟨t, ht, rfl⟩ := List.mem_map.1 hplaced
  cases v with
  | dense entries => cases ht
  | sparse added => exact placed_of_inBlock hdims (h _ hmem t ht)

/-! ## Spread terms -/

lemma toDense_sparse_eq {K : Type} [Scalar K] {terms : List (ℤ × K)}
    (h : layout.Holds (.sparse terms)) (htotal : 0 ≤ layout.total)
    (hword : Word.Holds layout.total) :
    layout.toDense (.sparse terms) = .ok (layout.spread terms) := by
  have hwords : (terms.any fun t => decide (¬ Word.Holds t.1)) = false := by
    rw [List.any_eq_false]
    intro t ht
    have hplace := h t ht
    have hholds : Word.Holds t.1 := by
      simp only [Word.Holds, Word.HoldsSigned, Word.HoldsUnsigned] at hword ⊢
      omega
    simpa using hholds
  have hplaces : (terms.all fun t => decide (0 ≤ t.1 ∧ t.1 < layout.total)) = true :=
    List.all_eq_true.2 fun t ht => decide_eq_true (h t ht)
  have hnone : layout.spreadFailure? terms = none := by
    rw [spreadFailure?, if_neg (not_lt.2 htotal)]
    simp only [hwords, hplaces, if_true, Bool.false_eq_true, if_false]
  rw [toDense, hnone]
  rfl

/-- The order of terms does not matter for what they are spread to, or why they cannot be spread. -/
lemma toDense_perm {terms others : List (ℤ × Rat)} (h : terms.Perm others) :
    layout.toDense (.sparse terms) = layout.toDense (.sparse others) := by
  have hfailure : layout.spreadFailure? terms = layout.spreadFailure? others := by
    rw [spreadFailure?, spreadFailure?, h.any_eq, h.all_eq]
  have hspread : layout.spread terms = layout.spread others := by
    refine List.map_congr_left fun k _ => ?_
    rw [FeatureVector.coordinate_sparse, FeatureVector.coordinate_sparse]
    exact (h.map _).sum_eq
  rw [toDense, toDense, hfailure, hspread]

/-- Terms stand for the entries that they are spread to. -/
lemma standsFor_spread {terms : List (ℤ × Rat)} (h : layout.Holds (.sparse terms)) :
    FeatureVector.StandsFor terms (layout.spread terms) := by
  have hlength : (layout.spread terms).length = layout.total.toNat := by simp [spread]
  constructor
  · intro t ht
    obtain ⟨h0, hlt⟩ := h t ht
    omega
  · intro k hk
    rw [List.getD_eq_getElem _ _ hk]
    simp [spread]

/-- Spread over the layout, terms have the score that they have as they are. -/
theorem score_sparse_eq_dot {terms : List (ℤ × Rat)} (h : layout.Holds (.sparse terms))
    (hweights : weights.length = layout.total) :
    layout.score (.sparse terms) weights = .ok (Scalar.dot (layout.spread terms) weights) := by
  have hlength : weights.length = (layout.spread terms).length := by
    rw [spread, List.length_map, List.length_range]
    omega
  rw [Scalar.dot_comm, (standsFor_spread h).dot_eq hlength, score_sparse_eq_ok_iff]
  refine ⟨hweights, terms.map fun t => weights.getD t.1.toNat 0 * t.2, ?_, rfl⟩
  rw [List.forall₂_map_right_iff, List.forall₂_same]
  intro t ht
  obtain ⟨h0, hlt⟩ := h t ht
  have hnat : t.1.toNat < weights.length := by omega
  refine ⟨weights.getD t.1.toNat 0, ?_, rfl⟩
  rw [weightAt, Place.get?, if_pos h0, List.getElem?_eq_getElem hnat, List.getD_eq_getElem _ _ hnat]

/-- What has the layout has as many entries as the layout, and the score of its entries. -/
theorem exists_toDense {psi : FeatureVector Rat} (h : layout.Holds psi) (htotal : 0 ≤ layout.total)
    (hword : Word.Holds layout.total) :
    ∃ entries, layout.toDense psi = .ok entries ∧ entries.length = layout.total ∧
      ∀ weights : List Rat, weights.length = layout.total →
        layout.score psi weights = .ok (Scalar.dot entries weights) := by
  cases psi with
  | dense entries =>
    have hlength : (entries.length : ℤ) = layout.total := h
    refine ⟨entries, rfl, hlength, ?_⟩
    intro weights hweights
    exact score_dense_eq_ok_iff.2 ⟨hweights, by omega, rfl⟩
  | sparse terms =>
    refine ⟨_, toDense_sparse_eq h htotal hword, ?_, fun weights => score_sparse_eq_dot h⟩
    rw [spread, List.length_map, List.length_range, Int.toNat_of_nonneg htotal]

/-- Joint feature vectors with the same scores have the same entries. -/
theorem toDense_eq_of_score {psi phi : FeatureVector Rat} (hpsi : layout.Holds psi)
    (hphi : layout.Holds phi) (htotal : 0 ≤ layout.total) (hword : Word.Holds layout.total)
    (h : ∀ weights : List Rat, weights.length = layout.total →
      layout.score psi weights = layout.score phi weights) :
    layout.toDense psi = layout.toDense phi := by
  obtain ⟨xs, hxs, hxsLength, hxsScore⟩ := exists_toDense hpsi htotal hword
  obtain ⟨ys, hys, hysLength, hysScore⟩ := exists_toDense hphi htotal hword
  have hdot : ∀ ws : List Rat, ws.length = xs.length → Scalar.dot xs ws = Scalar.dot ys ws := by
    intro ws hws
    have hws : (ws.length : ℤ) = layout.total := by omega
    have hsame := h ws hws
    rw [hxsScore ws hws, hysScore ws hws] at hsame
    exact Except.ok.inj hsame
  rw [hxs, hys, Scalar.eq_of_dot_eq (by omega) hdot]

/-- Dense joint feature vectors with the same scores are equal, whatever the layout. -/
lemma dense_eq_of_score {xs ys : List Rat} {s : Rat}
    (hxs : layout.score (.dense xs) weights = .ok s)
    (h : ∀ ws : List Rat, ws.length = weights.length →
      layout.score (.dense ys) ws = layout.score (.dense xs) ws) :
    FeatureVector.dense ys = .dense xs := by
  obtain ⟨htotal, hxsLength, -⟩ := score_dense_eq_ok_iff.1 hxs
  obtain ⟨-, hysLength, -⟩ := score_dense_eq_ok_iff.1 ((h weights rfl).trans hxs)
  have hdot : ∀ ws : List Rat, ws.length = ys.length → Scalar.dot ys ws = Scalar.dot xs ws := by
    intro ws hws
    have hws : ws.length = weights.length := hws.trans hysLength
    have hown : layout.score (.dense xs) ws = .ok (Scalar.dot xs ws) :=
      score_dense_eq_ok_iff.2 ⟨(congrArg Nat.cast hws).trans htotal, hxsLength.trans hws.symm, rfl⟩
    exact (score_dense_eq_ok_iff.1 ((h ws hws).trans hown)).2.2
  rw [Scalar.eq_of_dot_eq (hysLength.trans hxsLength.symm) hdot]

end FeatureLayout

end PottsOracle
