import PottsOracle.Feature.GivenJoint
import PottsOracle.Proofs.Feature.Updates

/-!
# Given joint feature vectors that are vectors

A joint feature vector can be given as a block of any shape.  As long as it is not, what is done
with it is what is done with the vector: contributions, entries and scores are those of the vector,
and so is what is left after any run of calls (`FeatureLayout.foldl_contributeGiven`).  Only a row
that is too long to be made has no counterpart.
-/

namespace PottsOracle

namespace FeatureLayout

open GivenJoint

variable {layout : FeatureLayout} {block : FeatureBlock} {psi v : FeatureVector Float}

theorem contributeGiven_ofVector :
    layout.contributeGiven block (ofVector psi) v =
      (ofVector (layout.contribute block psi v).vector,
        (layout.contribute block psi v).failure) := by
  cases psi with
  | dense entries => rfl
  | sparse terms => rfl

/-- Calls on a given vector leave what they leave of the vector. -/
theorem foldl_contributeGiven (psi : FeatureVector Float)
    (calls : List (FeatureBlock × FeatureVector Float)) :
    calls.foldl (fun joint c => (layout.contributeGiven c.1 joint c.2).1) (ofVector psi) =
      ofVector (layout.run psi calls) := by
  induction calls generalizing psi with
  | nil => rfl
  | cons c calls ih =>
    rw [List.foldl_cons, contributeGiven_ofVector]
    exact ih _

lemma lengthFailure?_eq_none_iff :
    layout.lengthFailure? = none ↔ 0 ≤ layout.total ∧ layout.total ≤ roomyLength := by
  have hroomy : roomyLength < maxLength := by decide
  unfold lengthFailure?
  split_ifs with hbad hroom
  · refine iff_of_false not_false ?_
    omega
  · refine iff_of_false not_false ?_
    omega
  · refine iff_of_true rfl ?_
    omega

lemma word_total_of_lengthFailure? (h : layout.lengthFailure? = none) :
    Word.Holds layout.total := by
  obtain ⟨htotal, hroom⟩ := lengthFailure?_eq_none_iff.1 h
  simp only [roomyLength, Nat.pow_eq] at hroom
  simp only [Word.Holds, Word.HoldsSigned, Word.HoldsUnsigned]
  omega

/-- The entries of a given vector are those of the vector, if a row can have so many. -/
theorem toDenseGiven_ofVector (h : psi.kind = .dense ∨ layout.lengthFailure? = none) :
    layout.toDenseGiven (ofVector psi) =
      (layout.toDense psi).map fun entries => ⟨[entries.length], entries⟩ := by
  cases psi with
  | dense entries => rfl
  | sparse terms =>
    have hlength : layout.lengthFailure? = none := by
      rcases h with hkind | hlength
      · cases hkind
      · exact hlength
    have hrow : layout.rowFailure? terms = layout.spreadFailure? terms := by
      have htotal : ¬ (0x8000000000000000 ≤ layout.total) := by
        have hroom := (lengthFailure?_eq_none_iff.1 hlength).2
        simp only [roomyLength, Nat.pow_eq] at hroom
        omega
      rw [rowFailure?, if_neg fun hterms => htotal hterms.2, hlength, Option.or_none]
    rw [ofVector, toDenseGiven, hrow, toDense]
    cases layout.spreadFailure? terms with
    | some e => rfl
    | none =>
      have hspread : (layout.spread terms).length = layout.total.toNat := by
        rw [spread, List.length_map, List.length_range]
      show _ = Except.ok (⟨[(layout.spread terms).length], layout.spread terms⟩ : Block Float)
      rw [hspread]

/-- The entries of a vector in the layout can be listed unless it is sparse and no row can have so
many. -/
theorem exists_toDenseGiven_iff (h : layout.Holds psi) :
    (∃ b, layout.toDenseGiven (ofVector psi) = .ok b) ↔
      psi.kind = .dense ∨ layout.lengthFailure? = none := by
  constructor
  · rintro ⟨b, hb⟩
    cases psi with
    | dense entries => exact .inl rfl
    | sparse terms =>
      refine .inr ?_
      rw [ofVector, toDenseGiven] at hb
      cases hrow : layout.rowFailure? terms with
      | some e =>
        rw [hrow] at hb
        cases hb
      | none =>
        rw [rowFailure?, ite_eq_iff] at hrow
        rcases hrow with ⟨-, hsome⟩ | ⟨-, hrest⟩
        · cases hsome
        · exact (Option.or_eq_none_iff.1 hrest).2
  · intro hlength
    rw [toDenseGiven_ofVector hlength]
    cases psi with
    | dense entries => exact ⟨_, rfl⟩
    | sparse terms =>
      rcases hlength with hkind | hnone
      · cases hkind
      · have htotal := (lengthFailure?_eq_none_iff.1 hnone).1
        rw [toDense_sparse_eq h htotal (word_total_of_lengthFailure? hnone)]
        exact ⟨_, rfl⟩

theorem scoreGiven_ofVector (weights : List Float) :
    layout.scoreGiven (ofVector psi) weights = layout.score psi weights := by
  cases psi with
  | dense entries => rfl
  | sparse terms => rfl

end FeatureLayout

end PottsOracle
