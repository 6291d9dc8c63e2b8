import PottsOracle.Proofs.Potts.Score

/-!
# The exhaustive search

The scan `firstBest` keeps the first entry that no other one exceeds, and `allLabelings` has every
labeling.  So the search finds a labeling of largest score, and the first one
(`PottsModel.exhaustiveLabeling_eq`).

`allLabelings` is in lexicographic order (`pairwise_allLabelings`).  So of all labelings of largest
score the search finds the least one (`PottsModel.exhaustiveLabeling_first`).
-/

namespace PottsOracle

/-- An entry of a list such that earlier ones are smaller and later ones not larger. -/
def IsFirstBest {A : Type} (score : A → Rat) (entries : List A) (best : A) : Prop :=
  ∃ before after, entries = before ++ best :: after ∧
    (∀ z ∈ before, score z < score best) ∧ ∀ z ∈ after, score z ≤ score best

namespace IsFirstBest

variable {A : Type} {score : A → Rat} {entries : List A} {x y best : A}

lemma mem (h : IsFirstBest score entries best) : best ∈ entries := by
  obtain ⟨before, after, rfl, -, -⟩ := h
  exact List.mem_append_right before List.mem_cons_self

lemma le (h : IsFirstBest score entries best) {z : A} (hz : z ∈ entries) :
    score z ≤ score best := by
  obtain ⟨before, after, rfl, hbefore, hafter⟩ := h
  rcases List.mem_append.1 hz with hz | hz
  · exact (hbefore z hz).le
  · rcases List.mem_cons.1 hz with rfl | hz
    · exact le_rfl
    · exact hafter z hz

/-- An entry that the next one exceeds is out. -/
lemma cons_of_lt (h : IsFirstBest score (y :: entries) best) (hlt : score x < score y) :
    IsFirstBest score (x :: y :: entries) best := by
  have hbest : score x < score best := hlt.trans_le (h.le List.mem_cons_self)
  obtain ⟨before, after, heq, hbefore, hafter⟩ := h
  refine ⟨x :: before, after, by rw [heq]; rfl, ?_, hafter⟩
  rintro z (_ | ⟨_, hz⟩)
  · exact hbest
  · exact hbefore z hz

/-- A second entry that does not exceed the first one is out. -/
lemma cons_of_le (h : IsFirstBest score (x :: entries) best) (hle : score y ≤ score x) :
    IsFirstBest score (x :: y :: entries) best := by
  obtain ⟨before, after, heq, hbefore, hafter⟩ := h
  cases before with
  | nil =>
    -- the first entry is the best one
    obtain ⟨rfl, rfl⟩ := List.cons.inj heq
    refine ⟨[], y :: entries, rfl, by simp, ?_⟩
    rintro z (_ | ⟨_, hz⟩)
    · exact hle
    · exact hafter z hz
  | cons first before =>
    obtain ⟨rfl, rfl⟩ := List.cons.inj heq
    refine ⟨x :: y :: before, after, rfl, ?_, hafter⟩
    have hx := hbefore x List.mem_cons_self
    rintro z (_ | ⟨_, _ | ⟨_, hz⟩⟩)
    · exact hx
    · exact hle.trans_lt hx
    · exact hbefore z (List.mem_cons_of_mem x hz)

/-- An entry that is seen twice at the start might as well be seen once. -/
lemma of_repeated (h : IsFirstBest score (x :: x :: entries) best) :
    IsFirstBest score (x :: entries) best := by
  obtain ⟨before, after, heq, hbefore, hafter⟩ := h
  cases before with
  | nil =>
    obtain ⟨rfl, rfl⟩ := List.cons.inj heq
    exact ⟨[], entries, rfl, by simp, fun z hz => hafter z (List.mem_cons_of_mem x hz)⟩
  | cons first before =>
    obtain ⟨rfl, hrest⟩ := List.cons.inj heq
    exact ⟨before, after, hrest, fun z hz => hbefore z (List.mem_cons_of_mem x hz), hafter⟩

/-- Entries that are as good as the first best one are later in the order of the list. -/
lemma eq_or_of_pairwise {r : A → A → Prop} (h : IsFirstBest score entries best)
    (hr : entries.Pairwise r) {z : A} (hz : z ∈ entries) (hsame : score z = score best) :
    z = best ∨ r best z := by
  obtain ⟨before, after, rfl, hbefore, -⟩ := h
  obtain ⟨-, hr, -⟩ := List.pairwise_append.1 hr
  rcases List.mem_append.1 hz with hz | hz
  · exact absurd hsame (hbefore z hz).ne
  · rcases List.mem_cons.1 hz with rfl | hz
    · exact Or.inl rfl
    · exact Or.inr (List.rel_of_pairwise_cons hr hz)

end IsFirstBest

/-- The scan finds the first best entry if all entries have a score. -/
lemma firstBest_eq {score? : Labeling → Option Rat} {score : Labeling → Rat} {entries : List Labeling}
    (h : ∀ y ∈ entries, score? y = some (score y)) (start : Labeling) :
    ∃ best, firstBest score? start (score start) entries = some best ∧
      IsFirstBest score (start :: entries) best := by
  induction entries generalizing start with
  | nil => exact ⟨start, rfl, [], [], rfl, by simp, by simp⟩
  | cons y entries ih =>
    have hy : score? y = some (score y) := h y List.mem_cons_self
    have hrest := ih fun z hz => h z (List.mem_cons_of_mem y hz)
    rw [firstBest, hy]
    simp only [Option.bind_eq_bind, Option.bind_some, Scalar.lt_rat, decide_eq_true_eq]
    by_cases hlt : score start < score y
    · obtain ⟨best, hfound, hbest⟩ := hrest y
      rw [if_pos hlt]
      exact ⟨best, hfound, hbest.cons_of_lt hlt⟩
    · obtain ⟨best, hfound, hbest⟩ := hrest start
      rw [if_neg hlt]
      exact ⟨best, hfound, hbest.cons_of_le (not_lt.1 hlt)⟩

lemma mem_allLabelings {n : Nat} {y : Labeling} : y ∈ allLabelings n ↔ y.length = n := by
  induction n generalizing y with
  | zero => rw [allLabelings, List.mem_singleton, List.length_eq_zero_iff]
  | succ n ih =>
    rw [allLabelings, List.mem_append, List.mem_map, List.mem_map]
    constructor
    · rintro (⟨z, hz, rfl⟩ | ⟨z, hz, rfl⟩)
      · rw [List.length_cons, ih.1 hz]
      · rw [List.length_cons, ih.1 hz]
    · intro hy
      cases y with
      | nil => cases hy
      | cons label z =>
        have hz : z ∈ allLabelings n := ih.2 (by simpa using hy)
        cases label with
        | false => exact Or.inl ⟨z, hz, rfl⟩
        | true => exact Or.inr ⟨z, hz, rfl⟩

namespace Labeling

/-- Lexicographic order: at the first node where two labelings differ, the first one is false and
the second one true. -/
def Precedes (y z : Labeling) : Prop :=
  ∃ i, y.take i = z.take i ∧ y[i]? = some false ∧ z[i]? = some true

lemma Precedes.cons {y z : Labeling} (h : Precedes y z) (label : Bool) :
    Precedes (label :: y) (label :: z) := by
  obtain ⟨i, htake, hy, hz⟩ := h
  exact ⟨i + 1, by rw [List.take_succ_cons, List.take_succ_cons, htake], hy, hz⟩

lemma precedes_false_true (y z : Labeling) : Precedes (false :: y) (true :: z) :=
  ⟨0, rfl, rfl, rfl⟩

/-- Where the first labelings agree, the labels are equal. -/
lemma getElem?_eq_of_take_eq {y z : Labeling} {i j : Nat} (h : y.take j = z.take j) (hij : i < j) :
    y[i]? = z[i]? := by
  rw [← List.getElem?_take_of_lt hij, h, List.getElem?_take_of_lt hij]

lemma Precedes.asymm {y z : Labeling} (h : Precedes y z) : ¬ Precedes z y := by
  rintro ⟨j, htake', hz', hy'⟩
  obtain ⟨i, htake, hy, hz⟩ := h
  -- before the first node where they differ, labelings are equal
  rcases lt_trichotomy i j with hlt | rfl | hlt
  · have hsame := getElem?_eq_of_take_eq htake' hlt
    rw [hy, hz] at hsame
    cases hsame
  · rw [hy] at hy'
    cases hy'
  · have hsame := getElem?_eq_of_take_eq htake hlt
    rw [hy', hz'] at hsame
    cases hsame

end Labeling

/-- The labelings are listed in lexicographic order. -/
lemma pairwise_allLabelings (n : Nat) : (allLabelings n).Pairwise Labeling.Precedes := by
  induction n with
  | zero => exact List.pairwise_singleton _ _
  | succ n ih =>
    have hcons : ∀ label : Bool,
        ((allLabelings n).map (label :: ·)).Pairwise Labeling.Precedes :=
      fun label => List.pairwise_map.2 (ih.imp fun h => h.cons label)
    rw [allLabelings, List.pairwise_append]
    refine ⟨hcons false, hcons true, ?_⟩
    intro y hy z hz
    obtain ⟨y, -, rfl⟩ := List.mem_map.1 hy
    obtain ⟨z, -, rfl⟩ := List.mem_map.1 hz
    exact Labeling.precedes_false_true y z

/-- The list starts with the labeling that is false everywhere. -/
lemma exists_allLabelings_eq_cons (n : Nat) :
    ∃ rest, allLabelings n = List.replicate n false :: rest := by
  induction n with
  | zero => exact ⟨[], rfl⟩
  | succ n ih =>
    obtain ⟨rest, hrest⟩ := ih
    exact ⟨_, by rw [allLabelings, hrest]; rfl⟩

section

variable {K : Type} [Scalar K] {score? : Labeling → Option K} {y : Labeling}

/-- The scan keeps one of the entries, whatever their scores are. -/
lemma mem_of_firstBest {best : Labeling} {bestScore : K} {entries : List Labeling}
    (h : firstBest score? best bestScore entries = some y) : y ∈ best :: entries := by
  induction entries generalizing best bestScore with
  | nil =>
    cases h
    exact List.mem_cons_self
  | cons z entries ih =>
    obtain ⟨score, -, h⟩ := Option.bind_eq_some_iff.1 h
    split at h
    · exact List.mem_cons_of_mem best (ih h)
    · rcases List.mem_cons.1 (ih h) with rfl | hmem
      · exact List.mem_cons_self
      · exact List.mem_cons_of_mem best (List.mem_cons_of_mem z hmem)

/-- The search finds a labeling of all nodes. -/
lemma length_of_searchAll {n : ℕ} (h : searchAll n score? = .ok y) : y.length = n := by
  rw [searchAll] at h
  split at h
  · cases h
  · obtain ⟨start, -, hfound⟩ := Option.bind_eq_some_iff.1 (elim_error_eq_ok_iff.1 h)
    rcases List.mem_cons.1 (mem_of_firstBest hfound) with rfl | hmem
    · exact List.length_replicate
    · exact mem_allLabelings.1 hmem

end

namespace Labeling

/-- A labeling of largest score that precedes all others of largest score. -/
structure IsFirstOptimum (order : Nat) (score : Labeling → Rat) (y : Labeling) : Prop where
  length_eq : y.length = order
  le : ∀ z, z.length = order → score z ≤ score y
  first : ∀ z, z.length = order → score z = score y → z = y ∨ Precedes y z

/-- There is only one first optimum. -/
lemma IsFirstOptimum.unique {n : Nat} {score : Labeling → Rat} {y z : Labeling}
    (hy : IsFirstOptimum n score y) (hz : IsFirstOptimum n score z) : y = z := by
  have hscore : score y = score z :=
    le_antisymm (hz.le y hy.length_eq) (hy.le z hz.length_eq)
  rcases hz.first y hy.length_eq hscore with heq | hzy
  · exact heq
  · rcases hy.first z hz.length_eq hscore.symm with heq | hyz
    · exact heq.symm
    · exact absurd hyz hzy.asymm

end Labeling

namespace PottsModel

variable {m : PottsModel Rat}

/-- Of few nodes the search finds the first labeling that no other one exceeds.  It starts with the
first labeling, which it sees twice. -/
lemma exhaustiveLabeling_eq (hm : m.JoinsNodes) (hn : m.order ≤ maxSearchedNodes) :
    ∃ y, m.exhaustiveLabeling = .ok y ∧ y.length = m.order ∧
      IsFirstBest m.exactScore (List.replicate m.order false :: allLabelings m.order) y := by
  have hstart : m.score? (List.replicate m.order false) =
      some (m.exactScore (List.replicate m.order false)) :=
    score?_eq hm List.length_replicate
  have hscores : ∀ z ∈ allLabelings m.order, m.score? z = some (m.exactScore z) :=
    fun z hz => score?_eq hm (mem_allLabelings.1 hz)
  obtain ⟨y, hfound, hbest⟩ := firstBest_eq hscores (List.replicate m.order false)
  refine ⟨y, ?_, ?_, hbest⟩
  · rw [exhaustiveLabeling, searchAll, if_neg (not_lt.2 hn)]
    simp only [hstart, Option.bind_eq_bind, Option.bind_some, hfound]
    rfl
  · rcases List.mem_cons.1 hbest.mem with rfl | hmem
    · exact List.length_replicate
    · exact mem_allLabelings.1 hmem

/-- Of few nodes the search finds the first optimum. -/
lemma exists_isFirstOptimum (hm : m.JoinsNodes) (hn : m.order ≤ maxSearchedNodes) :
    ∃ y, m.exhaustiveLabeling = .ok y ∧ Labeling.IsFirstOptimum m.order m.exactScore y := by
  obtain ⟨y, hfound, hy, hbest⟩ := exhaustiveLabeling_eq hm hn
  obtain ⟨rest, hrest⟩ := exists_allLabelings_eq_cons m.order
  have honce : IsFirstBest m.exactScore (allLabelings m.order) y := by
    rw [hrest] at hbest ⊢
    exact hbest.of_repeated
  refine ⟨y, hfound, hy, fun z hz => honce.le (mem_allLabelings.2 hz), fun z hz hsame => ?_⟩
  exact honce.eq_or_of_pairwise (pairwise_allLabelings m.order) (mem_allLabelings.2 hz) hsame

/-- The search refuses too many nodes, whatever the scalars are. -/
lemma exhaustiveLabeling_of_lt {K : Type} [Scalar K] {m : PottsModel K}
    (hn : maxSearchedNodes < m.order) :
    m.exhaustiveLabeling = .error (.tooManyNodes m.order) := by
  rw [exhaustiveLabeling, searchAll, if_pos hn]

/-- What is found has the largest score of all. -/
lemma exactScore_le_of_exhaustiveLabeling (hm : m.JoinsNodes) {y : Labeling}
    (hy : m.exhaustiveLabeling = .ok y) :
    m.order ≤ maxSearchedNodes ∧ y.length = m.order ∧
      ∀ z : Labeling, z.length = m.order → m.exactScore z ≤ m.exactScore y := by
  have hn : m.order ≤ maxSearchedNodes := by
    by_contra hlt
    rw [exhaustiveLabeling_of_lt (not_le.1 hlt)] at hy
    cases hy
  obtain ⟨found, hfound, hlength, hbest⟩ := exhaustiveLabeling_eq hm hn
  obtain rfl : found = y := Except.ok.inj (hfound.symm.trans hy)
  exact ⟨hn, hlength, fun z hz => hbest.le (List.mem_cons_of_mem _ (mem_allLabelings.2 hz))⟩

/-- A labeling that is ahead of all others is found. -/
lemma exhaustiveLabeling_of_forall_lt (hm : m.JoinsNodes) (hn : m.order ≤ maxSearchedNodes)
    {y : Labeling} (hy : y.length = m.order)
    (hlt : ∀ z : Labeling, z.length = m.order → z ≠ y → m.exactScore z < m.exactScore y) :
    m.exhaustiveLabeling = .ok y := by
  obtain ⟨found, hfound, hlength, hbest⟩ := exhaustiveLabeling_eq hm hn
  have hle := hbest.le (List.mem_cons_of_mem _ (mem_allLabelings.2 hy))
  by_contra hne
  have hother : found ≠ y := fun h => hne (h ▸ hfound)
  exact absurd hle (not_le.2 (hlt found hlength hother))

/-- The search takes up to twenty nodes.  It labels all of them, no labeling has a larger score, and
one of the same score comes later in lexicographic order.  More nodes it refuses, whatever the
potentials and couplings are, in exact arithmetic or not. -/
theorem exhaustiveLabeling_first :
    (∀ m : PottsModel Rat, m.JoinsNodes → m.order ≤ 20 →
      ∃ y best, m.exhaustiveLabeling = .ok y ∧ y.length = m.order ∧ m.score? y = some best ∧
        ∀ z : Labeling, z.length = m.order → ∃ score, m.score? z = some score ∧ score ≤ best ∧
          (score = best → z = y ∨ Labeling.Precedes y z)) ∧
    ∀ (K : Type) [Scalar K] (m : PottsModel K), 20 < m.order →
      m.exhaustiveLabeling = .error (.tooManyNodes m.order) := by
  refine ⟨?_, fun K _ m hn => exhaustiveLabeling_of_lt hn⟩
  intro m hm hn
  obtain ⟨y, hfound, hy⟩ := exists_isFirstOptimum hm hn
  refine ⟨y, m.exactScore y, hfound, hy.length_eq, score?_eq hm hy.length_eq, ?_⟩
  intro z hz
  exact ⟨m.exactScore z, score?_eq hm hz, hy.le z hz, hy.first z hz⟩

/-- Three nodes with parallel couplings and a loop, and with ties. -/
def tiedModel : PottsModel Rat where
  potentials := [1, -1, 0]
  couplings := [⟨0, 1, 1 / 2⟩, ⟨1, 0, 1 / 2⟩, ⟨2, 2, 5⟩]
  not_hasNegative := by
    rw [HasNegative, Scalar.minimum?_any_lt_zero_iff]
    norm_num

/-- More nodes than are searched, without numbers for potentials, and a coupling of places without
nodes. -/
def crowdedModel : PottsModel Float where
  potentials := List.replicate 21 (0 / 0)
  couplings := [⟨-50, 99, 1⟩]
  not_hasNegative := by decide +kernel

theorem exhaustiveLabeling_first_tiedModel :
    (tiedModel.JoinsNodes ∧ tiedModel.order ≤ 20 ∧
      ∃ y best, tiedModel.exhaustiveLabeling = .ok y ∧ y.length = 3 ∧
        tiedModel.score? y = some best ∧
        ∀ z : Labeling, z.length = 3 → ∃ score, tiedModel.score? z = some score ∧ score ≤ best ∧
          (score = best → z = y ∨ Labeling.Precedes y z)) ∧
    20 < crowdedModel.order ∧ crowdedModel.exhaustiveLabeling = .error (.tooManyNodes 21) := by
  obtain ⟨hfew, hmany⟩ := exhaustiveLabeling_first
  exact ⟨⟨by decide, by decide, hfew tiedModel (by decide) (by decide)⟩, by decide,
    hmany Float crowdedModel (by decide)⟩

end PottsModel

end PottsOracle
