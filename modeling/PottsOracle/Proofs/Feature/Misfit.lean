import PottsOracle.Proofs.Feature.JointEntries

/-!
# Vectors that do not fit

A call puts a vector into a joint feature vector of its representation.  It fails if and only if the
vector does not fit its block, and whatever happens it keeps the representation and the layout
(`FeatureLayout.isCall_contribute`).  So a run of calls fails with the error about the first vector
that does not fit, and succeeds if there is none (`FeatureLayout.contributeAll_spec`).  Nothing is
assumed about the scalars.
-/

namespace PottsOracle

namespace FeatureLayout

variable {K : Type} [Scalar K] {layout : FeatureLayout} {block : FeatureBlock}
  {psi v : FeatureVector K}

lemma holds_zeros (h : 0 ≤ layout.total) (kind : FeatureKind) :
    layout.Holds (layout.zeros kind : FeatureVector K) := by
  cases kind with
  | dense =>
    show ((List.replicate layout.total.toNat (0 : K)).length : ℤ) = layout.total
    rw [List.length_replicate, Int.toNat_of_nonneg h]
  | sparse =>
    intro term hterm
    cases hterm

/-! ## One call -/

/-- Entries that are as long as a block can be added to it, and the whole keeps its length. -/
lemma exists_length_addToBlock? (hdims : ∀ block, 0 ≤ layout.dims block) {all entries : List K}
    (hall : all.length = layout.total) (hentries : entries.length = layout.dims block) :
    ∃ sums, layout.addToBlock? block all entries = some sums ∧ sums.length = all.length := by
  have hcut : (layout.boundary all.length : ℤ) = layout.edgeDims :=
    boundary_eq hall (hdims .node) (hdims .edge)
  have hnode : 0 ≤ layout.nodeDims := hdims .node
  rw [total] at hall
  unfold addToBlock?
  generalize layout.boundary all.length = b at hcut
  cases block with
  | node =>
    have hrange : (all.drop b).length = entries.length := by
      rw [List.length_drop]
      rw [dims] at hentries
      omega
    refine ⟨all.take b ++ List.zipWith (· + ·) (all.drop b) entries, ?_, ?_⟩
    · simp only [addEntries?, if_pos hrange, Option.map_some]
    · rw [List.length_append, List.length_zipWith, ← hrange, min_self, ← List.length_append,
        List.take_append_drop]
  | edge =>
    have hrange : (all.take b).length = entries.length := by
      rw [List.length_take]
      rw [dims] at hentries
      omega
    refine ⟨List.zipWith (· + ·) (all.take b) entries ++ all.drop b, ?_, ?_⟩
    · simp only [addEntries?, if_pos hrange, Option.map_some]
    · rw [List.length_append, List.length_zipWith, ← hrange, min_self, ← List.length_append,
        List.take_append_drop]

/-- A dense vector that does not fit changes nothing. -/
lemma contribute_dense_of_misfit {all entries : List K} {e : LayoutError}
    (h : layout.misfit? block (.dense entries) = some e) :
    layout.contribute block (.dense all) (.dense entries) = ⟨.dense all, some (.layout e)⟩ := by
  simp only [contribute, h, Option.map_some, Option.isSome_some, if_true]

/-- What every call does: it keeps the representation and the layout, and fails if and only if the
vector does not fit. -/
structure IsCall (layout : FeatureLayout) (block : FeatureBlock) (psi v : FeatureVector K)
    (c : Change K) : Prop where
  kind_eq : c.vector.kind = psi.kind
  holds : layout.Holds c.vector
  failure_eq : c.failure = (layout.misfit? block v).map .layout

theorem isCall_contribute (hdims : ∀ block, 0 ≤ layout.dims block) (hpsi : layout.Holds psi)
    (hkind : v.kind = psi.kind) :
    IsCall layout block psi v (layout.contribute block psi v) := by
  cases psi with
  | dense all =>
    cases v with
    | sparse terms => cases hkind
    | dense entries =>
      cases hmisfit : layout.misfit? block (.dense entries) with
      | some e =>
        rw [contribute_dense_of_misfit hmisfit]
        exact ⟨rfl, hpsi, by rw [hmisfit]; rfl⟩
      | none =>
        have hlength : ((entries.map block.signed).length : ℤ) = layout.dims block := by
          rw [List.length_map]
          exact misfit?_eq_none_iff.1 hmisfit
        obtain ⟨sums, hsums, hcount⟩ := exists_length_addToBlock? hdims hpsi hlength
        have hchange : layout.contribute block (.dense all) (.dense entries) =
            ⟨.dense sums, none⟩ := by
          simp only [contribute, hmisfit, Option.map_none, Option.isSome_none, Bool.false_eq_true,
            if_false, hsums]
        rw [hchange]
        exact ⟨rfl, (congrArg Nat.cast hcount).trans hpsi, by rw [hmisfit]; rfl⟩
  | sparse terms =>
    cases v with
    | dense entries => cases hkind
    | sparse added =>
      refine ⟨rfl, ?_, rfl⟩
      intro term hterm
      rcases List.mem_append.1 hterm with hterm | hterm
      · exact hpsi term hterm
      · -- only terms before the first misfit are left behind
        obtain ⟨t, ht, rfl⟩ := List.mem_map.1 hterm
        exact placed_of_inBlock hdims (by simpa using List.mem_takeWhile_imp ht)

/-! ## A run of calls -/

/-- The first reason why some contributions are not all taken. -/
def firstMisfit? (layout : FeatureLayout) (contributions : List (FeatureBlock × FeatureVector K)) :
    Option LayoutError :=
  contributions.findSome? fun c => layout.misfit? c.1 c.2

omit [Scalar K] in
lemma firstMisfit?_eq_none_iff {contributions : List (FeatureBlock × FeatureVector K)} :
    layout.firstMisfit? contributions = none ↔ ∀ c ∈ contributions, layout.Fits c.1 c.2 := by
  simp only [firstMisfit?, List.findSome?_eq_none_iff, misfit?_eq_none_iff]

/-- Contributions of one representation are taken up to the first one that does not fit. -/
theorem contributeAll_spec (hdims : ∀ block, 0 ≤ layout.dims block)
    {contributions : List (FeatureBlock × FeatureVector K)} (hpsi : layout.Holds psi)
    (hkind : ∀ c ∈ contributions, c.2.kind = psi.kind) :
    match layout.firstMisfit? contributions with
    | some e => layout.contributeAll psi contributions = .error (.layout e)
    | none => ∃ phi, layout.contributeAll psi contributions = .ok phi ∧ phi.kind = psi.kind ∧
        layout.Holds phi := by
  induction contributions generalizing psi with
  | nil => exact ⟨psi, rfl, rfl, hpsi⟩
  | cons c contributions ih =>
    have hcall : IsCall layout c.1 psi c.2 (layout.contribute c.1 psi c.2) :=
      isCall_contribute hdims hpsi (hkind c List.mem_cons_self)
    have hrest := ih hcall.holds fun d hd => by
      rw [hcall.kind_eq]
      exact hkind d (List.mem_cons_of_mem c hd)
    have hfailure := hcall.failure_eq
    rw [hcall.kind_eq] at hrest
    rw [firstMisfit?, List.findSome?_cons, contributeAll]
    generalize layout.contribute c.1 psi c.2 = change at hrest hfailure
    obtain ⟨vector, failure⟩ := change
    cases hmisfit : layout.misfit? c.1 c.2 with
    | some e =>
      rw [hmisfit] at hfailure
      cases hfailure
      rfl
    | none =>
      rw [hmisfit] at hfailure
      cases hfailure
      exact hrest

end FeatureLayout

end PottsOracle
