import PottsOracle.Proofs.Feature.Terms
import PottsOracle.Proofs.Synthetic.Valid

/-!
# Generated data in both representations

The representation is the last thing that matters when data are generated: the draws that a sample
takes, its labels, its edges and its rows of numbers do not depend on it, and it only says how a row
becomes a vector. So data that are generated in both representations from the same draws agree
sample by sample, and the sparse vectors list the entries of the dense ones that are not zero
(`Synthetic.exists_generate_inKind`).
-/

namespace PottsOracle

/-- The settings of the same data in another representation. -/
def DataSettings.inKind (s : DataSettings) (kind : FeatureKind) : DataSettings :=
  { s with representation := kind }

/-- The generator of the same data in another representation. -/
def Generator.inKind {K : Type} (g : Generator K) (kind : FeatureKind) : Generator K :=
  { g with kind := kind }

/-- Whether settings give a generator, and for which rows, does not depend on the representation. -/
lemma DataSettings.generator_inKind (s : DataSettings) (kind : FeatureKind) :
    (s.inKind kind).generator = s.generator.map (·.inKind kind) := by
  show _ = (·.inKind kind) <$> s.generator
  simp only [generator, map_bind]
  rfl

variable {K : Type} [Scalar K]

/-- A sparse vector lists the entries of a dense one that are not zero, by increasing index. -/
structure FeatureVector.IsSparseCopy (sparse dense : FeatureVector K) : Prop where
  kind_eq : sparse.kind = .sparse
  dense_kind_eq : dense.kind = .dense
  increasing : sparse.terms.Pairwise fun t u => t.1 < u.1
  mem_iff : ∀ i x, (i, x) ∈ sparse.terms ↔
    ∃ k : ℕ, i = k ∧ dense.entries[k]? = some x ∧ Scalar.eq x 0 = false

/-- A sparse sample has the labels and the edges of a dense one, and its vectors are copies of the
vectors there. -/
structure Sample.IsSparseCopy (sparse dense : Sample K) : Prop where
  truth_eq : sparse.truth = dense.truth
  pairs_eq : sparse.graph.edges.pairs = dense.graph.edges.pairs
  nodes : List.Forall₂ FeatureVector.IsSparseCopy sparse.graph.nodes dense.graph.nodes
  edgeVectors :
    List.Forall₂ FeatureVector.IsSparseCopy sparse.graph.edgeVectors dense.graph.edgeVectors

namespace Synthetic

variable {g : Generator K} {draws : Draws K}

lemma pairwise_nonzeroTerms (entries : List K) :
    (FeatureVector.nonzeroTerms entries).Pairwise fun t u => t.1 < u.1 := by
  rw [FeatureVector.nonzeroTerms, List.pairwise_filterMap]
  refine (pairwise_snd_zipIdx entries).imp ?_
  rintro ⟨x, i⟩ ⟨y, j⟩ hlt t ht u hu
  cases (Option.ite_none_left_eq_some.1 ht).2
  cases (Option.ite_none_left_eq_some.1 hu).2
  exact Int.ofNat_lt.2 hlt

/-- One row as a vector in either representation. -/
lemma isSparseCopy_vectorOf (entries : List K) :
    (vectorOf .sparse entries).IsSparseCopy (vectorOf .dense entries) :=
  ⟨rfl, rfl, pairwise_nonzeroTerms entries, fun _ _ => FeatureVector.mem_nonzeroTerms_iff⟩

lemma forall₂_vectorOf (rows : List (List K)) :
    List.Forall₂ FeatureVector.IsSparseCopy (rows.map (vectorOf .sparse))
      (rows.map (vectorOf .dense)) := by
  rw [List.forall₂_map_left_iff, List.forall₂_map_right_iff, List.forall₂_same]
  exact fun entries _ => isSparseCopy_vectorOf entries

/-- What is drawn from the same draws in both representations. -/
lemma isSparseCopy_of_isDrawn {sparse dense : Sample K}
    (hsparse : IsDrawn (g.inKind .sparse) draws sparse)
    (hdense : IsDrawn (g.inKind .dense) draws dense) : sparse.IsSparseCopy dense := by
  refine ⟨hsparse.truth_eq.trans hdense.truth_eq.symm, hsparse.pairs_eq.trans hdense.pairs_eq.symm,
    ?_, ?_⟩
  · rw [hsparse.nodes_eq, hdense.nodes_eq]
    exact forall₂_vectorOf (nodeRows g draws)
  · rw [hsparse.edgeVectors_eq, hdense.edgeVectors_eq]
    exact forall₂_vectorOf (edgeRows g draws)

omit [Scalar K] in
/-- Two lists that go along with a third one go along with each other. -/
lemma forall₂_of_common {α β γ : Type} {r : α → β → Prop} {q : α → γ → Prop} {t : β → γ → Prop}
    (h : ∀ a b c, r a b → q a c → t b c) {as : List α} {bs : List β} {cs : List γ}
    (hbs : List.Forall₂ r as bs) (hcs : List.Forall₂ q as cs) : List.Forall₂ t bs cs := by
  induction hbs generalizing cs with
  | nil =>
    cases hcs
    exact .nil
  | cons hab _ ih =>
    cases hcs with
    | cons hac hrest => exact .cons (h _ _ _ hab hac) (ih hrest)

/-- In either representation the samples take the same draws. -/
lemma exists_generate (g : Generator K) (draws : Draws K) (kind : FeatureKind) :
    ∃ drawn, generate (g.inKind kind) draws = .ok drawn ∧
      List.Forall₂ (IsDrawn (g.inKind kind)) (List.iterate (rest g) draws g.samples) drawn :=
  exists_samples g.samples draws

/-- The same draws give the same data in both representations. -/
theorem exists_generate_inKind (g : Generator K) (draws : Draws K) :
    ∃ dense sparse, generate (g.inKind .dense) draws = .ok dense ∧
      generate (g.inKind .sparse) draws = .ok sparse ∧
      List.Forall₂ Sample.IsSparseCopy sparse dense := by
  obtain ⟨dense, hdense, hdrawn⟩ := exists_generate g draws .dense
  obtain ⟨sparse, hsparse, hdrawn'⟩ := exists_generate g draws .sparse
  refine ⟨dense, sparse, hdense, hsparse, forall₂_of_common ?_ hdrawn' hdrawn⟩
  intro start t s ht hs
  exact isSparseCopy_of_isDrawn ht hs

end Synthetic

end PottsOracle
