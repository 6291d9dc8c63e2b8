import PottsOracle.Proofs.Feature.Misfit

/-!
# Joint feature vectors under updates

A joint feature vector is changed call by call: a vector is put into one of the two blocks, and the
call may fail.  A dense vector that does not fit is not put there at all; of a sparse one the terms
before the first misfit stay behind (`FeatureLayout.taken`).  All that a call does to an entry is
said by one equation (`FeatureLayout.isStep_contribute`).  From it follows what holds after any
run of calls, whichever of them failed (`FeatureLayout.run_zeros_sound`).
-/

namespace PottsOracle

lemma FeatureBlock.signed_zero (block : FeatureBlock) : block.signed (0 : Rat) = 0 := by
  cases block <;> rfl

namespace FeatureLayout

variable {layout : FeatureLayout} {block : FeatureBlock} {psi v : FeatureVector Rat} {k : ℕ}

/-! ## Rows -/

/-- The entries of a joint feature vector, one for every place of the layout. -/
def row (layout : FeatureLayout) (psi : FeatureVector Rat) : List Rat :=
  (List.range layout.total.toNat).map psi.coordinate

lemma row_dense {entries : List Rat} (h : layout.Holds (.dense entries)) :
    layout.row (.dense entries) = entries := by
  have hlength : (entries.length : ℤ) = layout.total := h
  refine List.ext_getElem ?_ ?_
  · rw [row, List.length_map, List.length_range]
    omega
  · intro k _ hk
    simp only [row, List.getElem_map, List.getElem_range, FeatureVector.coordinate]
    exact List.getD_eq_getElem _ _ hk

lemma length_row (h : 0 ≤ layout.total) (psi : FeatureVector Rat) :
    ((layout.row psi).length : ℤ) = layout.total := by
  rw [row, List.length_map, List.length_range, Int.toNat_of_nonneg h]

lemma getElem?_row (hk : k < layout.total) : (layout.row psi)[k]? = some (psi.coordinate k) := by
  have hlt : k < layout.total.toNat := by omega
  rw [row, List.getElem?_map, List.getElem?_range hlt, Option.map_some]

/-- The row of the layout is what the entries are listed as, if a word holds the length of a sparse
vector. -/
lemma toDense_eq_row (h : layout.Holds psi) (htotal : 0 ≤ layout.total)
    (hword : psi.kind = .dense ∨ Word.Holds layout.total) :
    layout.toDense psi = .ok (layout.row psi) := by
  cases psi with
  | dense entries => rw [row_dense h, toDense]
  | sparse terms =>
    rcases hword with hkind | hword
    · cases hkind
    · exact toDense_sparse_eq h htotal hword

/-- The score of a joint feature vector is the score of its row. -/
lemma score_eq_dot_row (h : layout.Holds psi) {weights : List Rat}
    (hweights : weights.length = layout.total) :
    layout.score psi weights = .ok (Scalar.dot (layout.row psi) weights) := by
  cases psi with
  | dense entries =>
    have hlength : (entries.length : ℤ) = layout.total := h
    rw [row_dense h]
    exact score_dense_eq_ok_iff.2 ⟨hweights, by omega, rfl⟩
  | sparse terms => exact score_sparse_eq_dot h hweights

/-! ## One call -/

/-- What a block takes of a vector: all of it if it fits, and else nothing of a dense vector and of
a sparse one the terms before the first misfit. -/
def taken (layout : FeatureLayout) (block : FeatureBlock) :
    FeatureVector Rat → FeatureVector Rat
  | .dense entries => .dense (if entries.length = layout.dims block then entries else [])
  | .sparse terms => .sparse (terms.takeWhile fun term => layout.InBlock block term.1)

lemma taken_of_fits (h : layout.Fits block v) : layout.taken block v = v := by
  cases v with
  | dense entries => exact congrArg FeatureVector.dense (if_pos h)
  | sparse terms =>
    exact congrArg FeatureVector.sparse
      (List.takeWhile_eq_self_iff.2 fun term hterm => decide_eq_true (h term hterm))

lemma mem_taken {added : List (ℤ × Rat)} {term : ℤ × Rat}
    (h : term ∈ (layout.taken block (.sparse added)).terms) : layout.InBlock block term.1 := by
  simpa using List.mem_takeWhile_imp h

/-- Beyond its block a vector has no entries. -/
lemma coordinate_taken_eq_zero (h : layout.dims block ≤ k) :
    (layout.taken block v).coordinate k = 0 := by
  cases v with
  | dense entries =>
    refine List.getD_eq_default _ _ ?_
    split
    · omega
    · exact k.zero_le
  | sparse terms =>
    rw [taken, FeatureVector.coordinate_sparse]
    refine List.sum_eq_zero ?_
    intro x hx
    obtain ⟨term, hterm, rfl⟩ := List.mem_map.1 hx
    have hlt := (mem_taken hterm).2
    exact if_neg (by omega)

/-- Entries are added one by one. -/
lemma getD_zipWith_add {xs ys : List Rat} (h : xs.length = ys.length) (k : ℕ) :
    (List.zipWith (· + ·) xs ys).getD k 0 = xs.getD k 0 + ys.getD k 0 := by
  have hzip : (List.zipWith (· + ·) xs ys).length = xs.length := by
    rw [List.length_zipWith, h, min_self]
  rcases lt_or_ge k xs.length with hk | hk
  · rw [List.getD_eq_getElem _ _ (hzip ▸ hk), List.getD_eq_getElem _ _ hk,
      List.getD_eq_getElem _ _ (h ▸ hk), List.getElem_zipWith]
  · rw [List.getD_eq_default _ _ (hzip ▸ hk), List.getD_eq_default _ _ hk,
      List.getD_eq_default _ _ (h ▸ hk), add_zero]

/-- A list is cut at a place and put together again from a part of its own and something else. -/
lemma getD_take_append (xs ys : List Rat) {b k : ℕ} (hb : b ≤ xs.length) :
    (xs.take b ++ ys).getD k 0 = if k < b then xs.getD k 0 else ys.getD (k - b) 0 := by
  have htake : (xs.take b).length = b := by rw [List.length_take, min_eq_left hb]
  split
  · rename_i hk
    rw [List.getD_append _ _ _ _ (htake.symm ▸ hk), List.getD_eq_getElem?_getD,
      List.getElem?_take_of_lt hk, List.getD_eq_getElem?_getD]
  · rename_i hk
    rw [List.getD_append_right _ _ _ _ (htake.trans_le (not_lt.1 hk)), htake]

lemma getD_drop (xs : List Rat) {b k : ℕ} (hk : b ≤ k) :
    (xs.drop b).getD (k - b) 0 = xs.getD k 0 := by
  rw [List.getD_eq_getElem?_getD, List.getElem?_drop, Nat.add_sub_cancel' hk,
    ← List.getD_eq_getElem?_getD]

/-- Entries that are put into a block are added to the entries from its start on. -/
lemma exists_addToBlock? (hdims : ∀ block, 0 ≤ layout.dims block) {all entries : List Rat}
    (hall : all.length = layout.total) (hentries : entries.length = layout.dims block) :
    ∃ sums, layout.addToBlock? block all entries = some sums ∧
      ∀ k : ℕ, sums.getD k 0 = all.getD k 0 +
        if (layout.offset block).toNat ≤ k then entries.getD (k - (layout.offset block).toNat) 0
        else 0 := by
  have hcut : (layout.boundary all.length : ℤ) = layout.edgeDims :=
    boundary_eq hall (hdims .node) (hdims .edge)
  rw [total] at hall
  have hnode : 0 ≤ layout.nodeDims := hdims .node
  unfold addToBlock?
  generalize layout.boundary all.length = b at hcut
  have hb : b ≤ all.length := by omega
  cases block with
  | node =>
    have hstart : (layout.offset .node).toNat = b := by
      rw [offset, ← hcut, Int.toNat_natCast]
    have hrange : (all.drop b).length = entries.length := by
      rw [List.length_drop]
      rw [dims] at hentries
      omega
    refine ⟨all.take b ++ List.zipWith (· + ·) (all.drop b) entries, ?_, ?_⟩
    · simp only [addEntries?, if_pos hrange, Option.map_some]
    · intro k
      rw [getD_take_append _ _ hb, getD_zipWith_add hrange, hstart]
      split
      · rename_i hk
        rw [if_neg (not_le.2 hk), add_zero]
      · rename_i hk
        rw [if_pos (not_lt.1 hk), getD_drop _ (not_lt.1 hk)]
  | edge =>
    have htake : (all.take b).length = b := by rw [List.length_take, min_eq_left hb]
    have hrange : (all.take b).length = entries.length := by
      rw [htake]
      rw [dims] at hentries
      omega
    have hsums : (List.zipWith (· + ·) (all.take b) entries).length = b := by
      rw [List.length_zipWith, ← hrange, min_self, htake]
    refine ⟨List.zipWith (· + ·) (all.take b) entries ++ all.drop b, ?_, ?_⟩
    · simp only [addEntries?, if_pos hrange, Option.map_some]
    · intro k
      rw [if_pos (show (layout.offset .edge).toNat ≤ k from k.zero_le)]
      show _ = _ + entries.getD k 0
      have hown : all.getD k 0 = (all.take b ++ all.drop b).getD k 0 := by
        rw [List.take_append_drop]
      rcases lt_or_ge k b with hk | hk
      · rw [List.getD_append _ _ _ _ (hsums.symm ▸ hk), getD_zipWith_add hrange, hown,
          List.getD_append _ _ _ _ (htake.symm ▸ hk)]
      · rw [List.getD_append_right _ _ _ _ (hsums.trans_le hk), hsums, getD_drop _ hk,
          List.getD_eq_default entries _ (hrange.symm.trans_le (htake.trans_le hk)), add_zero]

/-! ## What a call does to an entry -/

lemma offset_nonneg (hdims : ∀ block, 0 ≤ layout.dims block) (block : FeatureBlock) :
    0 ≤ layout.offset block := by
  cases block with
  | node => exact hdims .edge
  | edge => exact le_rfl

/-- What a vector adds to an entry of the whole: its own entries count from the start of its block
on, with the sign of the block. -/
def share (layout : FeatureLayout) (block : FeatureBlock) (v : FeatureVector Rat) (k : ℕ) : Rat :=
  if (layout.offset block).toNat ≤ k then
    block.signed (v.coordinate (k - (layout.offset block).toNat))
  else 0

lemma share_edge (v : FeatureVector Rat) (k : ℕ) : layout.share .edge v k = -v.coordinate k := by
  rw [share, if_pos (show (layout.offset .edge).toNat ≤ k from k.zero_le)]
  rfl

lemma share_node_of_lt (hk : k < layout.edgeDims) : layout.share .node v k = 0 := by
  refine if_neg ?_
  rw [offset]
  omega

lemma share_node_add (v : FeatureVector Rat) (k : ℕ) :
    layout.share .node v (layout.edgeDims.toNat + k) = v.coordinate k := by
  rw [share, offset, if_pos (Nat.le_add_right _ k), Nat.add_sub_cancel_left]
  rfl

/-- Nothing is added to the entries outside of the block. -/
lemma share_taken_eq_zero (hoffset : 0 ≤ layout.offset block)
    (hk : ¬ layout.InBlock block (k - layout.offset block)) :
    layout.share block (layout.taken block v) k = 0 := by
  rw [share]
  split
  · rename_i hstart
    rw [InBlock, not_and, not_lt] at hk
    rw [coordinate_taken_eq_zero (by omega), block.signed_zero]
  · rfl

/-- Terms that are placed are entries from the start of the block on. -/
lemma coordinate_placed (hoffset : 0 ≤ layout.offset block) {terms : List (ℤ × Rat)}
    (hterms : ∀ term ∈ terms, 0 ≤ term.1) (k : ℕ) :
    (FeatureVector.sparse (layout.placed block terms)).coordinate k =
      layout.share block (.sparse terms) k := by
  rw [share, FeatureVector.coordinate_sparse, FeatureVector.coordinate_sparse, placed, List.map_map]
  split
  · rename_i hk
    rw [← block.sum_map_signed, List.map_map]
    refine congrArg List.sum (List.map_congr_left ?_)
    intro term _
    have hplace : term.1 + layout.offset block = k ↔
        term.1 = ((k - (layout.offset block).toNat : ℕ) : ℤ) := by omega
    simp only [Function.comp_apply, hplace, apply_ite block.signed, block.signed_zero]
  · rename_i hk
    refine List.sum_eq_zero ?_
    intro x hx
    obtain ⟨term, hterm, rfl⟩ := List.mem_map.1 hx
    have h0 := hterms term hterm
    exact if_neg (by dsimp only; omega)

/-- A dense vector that fits is added to the entries from the start of the block on. -/
lemma exists_contribute_dense (hdims : ∀ block, 0 ≤ layout.dims block) {all entries : List Rat}
    (hall : all.length = layout.total) (h : layout.Fits block (.dense entries)) :
    ∃ sums, layout.contribute block (.dense all) (.dense entries) = ⟨.dense sums, none⟩ ∧
      ∀ k : ℕ, sums.getD k 0 = all.getD k 0 + layout.share block (.dense entries) k := by
  have hlength : ((entries.map block.signed).length : ℤ) = layout.dims block := by
    rw [List.length_map]
    exact h
  obtain ⟨sums, hsums, hentry⟩ := exists_addToBlock? hdims hall hlength
  refine ⟨sums, ?_, ?_⟩
  · simp only [contribute, misfit?_eq_none_iff.2 h, Option.map_none, Option.isSome_none,
      Bool.false_eq_true, if_false, hsums]
  · intro k
    have hmap : ∀ j, (entries.map block.signed).getD j 0 = block.signed (entries.getD j 0) := by
      intro j
      rw [← block.signed_zero, List.getD_map, block.signed_zero]
    rw [hentry, hmap]
    rfl

/-- A sparse vector leaves its terms before the first misfit. -/
lemma contribute_sparse_taken {terms added : List (ℤ × Rat)} :
    layout.contribute block (.sparse terms) (.sparse added) =
      ⟨.sparse (terms ++ layout.placed block (layout.taken block (.sparse added)).terms),
        (layout.misfit? block (.sparse added)).map .layout⟩ :=
  rfl

/-- A vector of the other representation changes nothing. -/
lemma contribute_of_kind_ne (h : v.kind ≠ psi.kind) :
    (layout.contribute block psi v).vector = psi := by
  cases psi with
  | dense all =>
    cases v with
    | dense entries => exact absurd rfl h
    | sparse terms => rfl
  | sparse terms =>
    cases v with
    | dense entries => cases entries <;> rfl
    | sparse added => exact absurd rfl h

/-- What a call does: it fails if and only if the vector does not fit, and it adds what the block
takes of it to the entries from the start of the block on, with the sign of the block. -/
structure IsStep (layout : FeatureLayout) (block : FeatureBlock) (psi v : FeatureVector Rat)
    (c : Change Rat) : Prop where
  kind_eq : c.vector.kind = psi.kind
  holds : layout.Holds c.vector
  failure_eq : c.failure = (layout.misfit? block v).map .layout
  coordinate_eq : ∀ k, c.vector.coordinate k =
    psi.coordinate k + layout.share block (layout.taken block v) k

theorem isStep_contribute (hdims : ∀ block, 0 ≤ layout.dims block) (hpsi : layout.Holds psi)
    (hkind : v.kind = psi.kind) :
    IsStep layout block psi v (layout.contribute block psi v) := by
  have hcall : IsCall layout block psi v (layout.contribute block psi v) :=
    isCall_contribute hdims hpsi hkind
  refine ⟨hcall.kind_eq, hcall.holds, hcall.failure_eq, ?_⟩
  intro k
  cases psi with
  | dense all =>
    cases v with
    | sparse terms => cases hkind
    | dense entries =>
      cases hmisfit : layout.misfit? block (.dense entries) with
      | some e =>
        have hlength : ¬ (entries.length : ℤ) = layout.dims block := by
          show ¬ layout.Fits block (.dense entries)
          rw [← misfit?_eq_none_iff, hmisfit]
          exact Option.some_ne_none e
        have hnone : layout.share block (.dense []) k = 0 := by
          rw [share, ite_eq_right_iff]
          exact fun _ => block.signed_zero
        rw [contribute_dense_of_misfit hmisfit, taken, if_neg hlength, hnone, add_zero]
      | none =>
        have hfits : layout.Fits block (.dense entries) := misfit?_eq_none_iff.1 hmisfit
        obtain ⟨sums, hsums, hentry⟩ := exists_contribute_dense hdims hpsi hfits
        rw [hsums, taken_of_fits hfits]
        exact hentry k
  | sparse terms =>
    cases v with
    | dense entries => cases hkind
    | sparse added =>
      have happend : ∀ ts us : List (ℤ × Rat), (FeatureVector.sparse (ts ++ us)).coordinate k =
          (FeatureVector.sparse ts).coordinate k + (FeatureVector.sparse us).coordinate k := by
        intro ts us
        simp only [FeatureVector.coordinate_sparse, List.map_append, List.sum_append]
      rw [contribute_sparse_taken, happend,
        coordinate_placed (offset_nonneg hdims block) fun t ht => (mem_taken ht).1]
      rfl

/-! ## What a call leaves alone -/

lemma getElem?_row_congr {phi : FeatureVector Rat} (h : phi.coordinate k = psi.coordinate k) :
    (layout.row phi)[k]? = (layout.row psi)[k]? := by
  rw [row, row, List.getElem?_map, List.getElem?_map]
  rcases lt_or_ge k layout.total.toNat with hk | hk
  · rw [List.getElem?_range hk, Option.map_some, Option.map_some, h]
  · rw [List.getElem?_eq_none (by rwa [List.length_range])]
    rfl

/-- A call about a dense joint feature vector that fails changes nothing, whatever the reason. -/
lemma contribute_dense_of_failure {all : List Rat}
    (h : (layout.contribute block (.dense all) v).failure ≠ none) :
    (layout.contribute block (.dense all) v).vector = .dense all := by
  cases v with
  | sparse terms => rfl
  | dense entries =>
    unfold contribute at h ⊢
    dsimp only at h ⊢
    split_ifs at h ⊢
    · rfl
    · split
      · rename_i hsums
        rw [hsums] at h
        exact absurd rfl h
      · rfl

/-- A call leaves alone what it has nothing to do with: the other block, and everything if it is
about a dense vector and fails. A vector of the right representation is taken if and only if it
fits. -/
structure LeavesRest (layout : FeatureLayout) (block : FeatureBlock) (psi v : FeatureVector Rat)
    (c : Change Rat) : Prop where
  edge_eq : block = .node → ∀ k : ℕ, k < layout.edgeDims →
    (layout.row c.vector)[k]? = (layout.row psi)[k]?
  node_eq : block = .edge → ∀ k : ℕ, layout.edgeDims ≤ k →
    (layout.row c.vector)[k]? = (layout.row psi)[k]?
  vector_eq : psi.kind = .dense → c.failure ≠ none → c.vector = psi
  failure_eq : v.kind = psi.kind → c.failure = (layout.misfit? block v).map .layout

lemma leavesRest_contribute (hdims : ∀ block, 0 ≤ layout.dims block) (hpsi : layout.Holds psi) :
    LeavesRest layout block psi v (layout.contribute block psi v) := by
  have hentry : ∀ k : ℕ, ¬ layout.InBlock block (k - layout.offset block) →
      (layout.row (layout.contribute block psi v).vector)[k]? = (layout.row psi)[k]? := by
    intro k hk
    by_cases hkind : v.kind = psi.kind
    · have hstep : IsStep layout block psi v (layout.contribute block psi v) :=
        isStep_contribute hdims hpsi hkind
      refine getElem?_row_congr ?_
      rw [hstep.coordinate_eq, share_taken_eq_zero (offset_nonneg hdims block) hk, add_zero]
    · rw [contribute_of_kind_ne hkind]
  refine ⟨?_, ?_, ?_, fun hkind => (isStep_contribute hdims hpsi hkind).failure_eq⟩
  · rintro rfl k hk
    refine hentry k ?_
    rw [InBlock, offset]
    omega
  · rintro rfl k hk
    refine hentry k ?_
    rw [InBlock, offset, dims]
    omega
  · intro hkind hfailure
    cases psi with
    | dense all => exact contribute_dense_of_failure hfailure
    | sparse terms => cases hkind

/-! ## Runs -/

/-- What is left of a joint feature vector after some calls, each of which may fail. -/
def run {K : Type} [Scalar K] (layout : FeatureLayout) (psi : FeatureVector K)
    (calls : List (FeatureBlock × FeatureVector K)) : FeatureVector K :=
  calls.foldl (fun psi c => (layout.contribute c.1 psi c.2).vector) psi

/-- A single call keeps the representation and the layout. -/
lemma holds_contribute (hdims : ∀ block, 0 ≤ layout.dims block) (hpsi : layout.Holds psi) :
    (layout.contribute block psi v).vector.kind = psi.kind ∧
      layout.Holds (layout.contribute block psi v).vector := by
  by_cases hkind : v.kind = psi.kind
  · have hstep : IsStep layout block psi v (layout.contribute block psi v) :=
      isStep_contribute hdims hpsi hkind
    exact ⟨hstep.kind_eq, hstep.holds⟩
  · rw [contribute_of_kind_ne hkind]
    exact ⟨rfl, hpsi⟩

/-- So does any run. -/
lemma holds_run (hdims : ∀ block, 0 ≤ layout.dims block)
    (calls : List (FeatureBlock × FeatureVector Rat)) (hpsi : layout.Holds psi) :
    (layout.run psi calls).kind = psi.kind ∧ layout.Holds (layout.run psi calls) := by
  induction calls generalizing psi with
  | nil => exact ⟨rfl, hpsi⟩
  | cons c calls ih =>
    obtain ⟨block, v⟩ := c
    obtain ⟨hkind, hstep⟩ := holds_contribute hdims hpsi
    obtain ⟨hrest, hholds⟩ := ih hstep
    exact ⟨hrest.trans hkind, hholds⟩

/-- A joint feature vector is as it should be: it has the layout, its entries can be listed if it is
dense or a word holds their number, and it has the score of its entries. -/
structure WellFormed (layout : FeatureLayout) (kind : FeatureKind) (psi : FeatureVector Rat) :
    Prop where
  kind_eq : psi.kind = kind
  holds : layout.Holds psi
  length_row : ((layout.row psi).length : ℤ) = layout.total
  toDense_eq : kind = .dense ∨ Word.Holds layout.total →
    layout.toDense psi = .ok (layout.row psi)
  score_eq : ∀ weights : List Rat, weights.length = layout.total →
    layout.score psi weights =
      .ok (∑ k ∈ Finset.range weights.length, (layout.row psi).getD k 0 * weights.getD k 0)

lemma wellFormed_of_holds (htotal : 0 ≤ layout.total) (h : layout.Holds psi) :
    WellFormed layout psi.kind psi := by
  have hrow := length_row htotal psi
  refine ⟨rfl, h, hrow, toDense_eq_row h htotal, fun weights hweights => ?_⟩
  rw [score_eq_dot_row h hweights, Scalar.dot_eq_sum_range (by omega)]

/-- After any run of calls on a joint feature vector to which nothing had contributed, whichever of
them failed, it is as it should be; and the next call, whether it fails or not, leaves alone what it
has nothing to do with. -/
theorem run_zeros_sound (layout : FeatureLayout) (hdims : ∀ block, 0 ≤ layout.dims block)
    (kind : FeatureKind) (calls : List (FeatureBlock × FeatureVector Rat)) :
    let psi := layout.run (layout.zeros kind) calls
    WellFormed layout kind psi ∧
      ∀ block v, LeavesRest layout block psi v (layout.contribute block psi v) := by
  have htotal := total_nonneg hdims
  obtain ⟨hkind, hholds⟩ := holds_run hdims calls (holds_zeros htotal kind)
  refine ⟨?_, fun block v => leavesRest_contribute hdims hholds⟩
  have h := wellFormed_of_holds htotal hholds
  rwa [hkind, kind_zeros] at h

/-- The second term of the first call has no place in the node block, so the third is not looked at;
the first stays behind.  The last call is about a vector of the other representation. -/
theorem run_zeros_sound_of_misfit :
    let layout : FeatureLayout := ⟨2, 1⟩
    let psi := layout.run (layout.zeros .sparse)
      [(.node, .sparse [(0, 3), (2, 5), (1, 1)]), (.edge, .sparse [(0, 1), (0, 2)]),
        (.node, .sparse [(1, 6)]), (.node, .dense [7, 7])]
    layout.row psi = [-3, 3, 6] ∧ layout.WellFormed .sparse psi ∧
      (layout.contribute .node psi (.sparse [(-1, 4)])).failure =
        some (.layout (.indexOutside .node (-1) 2)) := by
  intro layout psi
  have hdims : ∀ block, 0 ≤ layout.dims block := by
    intro block
    cases block <;> decide
  obtain ⟨hformed, hcall⟩ := run_zeros_sound layout hdims .sparse
    [(.node, .sparse [(0, 3), (2, 5), (1, 1)]), (.edge, .sparse [(0, 1), (0, 2)]),
      (.node, .sparse [(1, 6)]), (.node, .dense [7, 7])]
  exact ⟨by decide +kernel, hformed, (hcall .node (.sparse [(-1, 4)])).failure_eq rfl⟩

end FeatureLayout

end PottsOracle
