import Mathlib.Algebra.Order.Group.Int
import Mathlib.Data.List.GetD
import PottsOracle.Potts.Solver

/-!
# The labels of a cut

Where all vertices of a network have a side, a cut labels the nodes: a node is true if it is on the
source's side, or if a negative stray place on that side marks it from the end
(`PottsModel.getD_labels_iff`).  There are no labels if some stray place counts back beyond the
first node, and in no other case (`PottsModel.labelingOf_eq_ok_iff`).
-/

namespace PottsOracle

namespace Labeling

variable {y : Labeling} {i : ℕ}

lemma getD_eq_true_iff : y.getD i false = true ↔ y[i]? = some true := by
  rw [List.getD_eq_getElem?_getD]
  cases y[i]? with
  | none => simp
  | some label => simp

/-- Only nodes are true. -/
lemma lt_length_of_getD (h : y.getD i false = true) : i < y.length :=
  (List.getElem?_eq_some_iff.1 (getD_eq_true_iff.1 h)).1

end Labeling

namespace PottsModel

variable {K : Type} [Scalar K] {m : PottsModel K} {stray : List ℤ} {side : List Bool}

/-- The nodes that negative stray places on the source's side mark from the end. -/
def marks (m : PottsModel K) (stray : List ℤ) (side : List Bool) : List ℤ :=
  (stray.zip (side.drop (m.order + 2))).filterMap fun (place, onSide) =>
    if onSide ∧ place < 0 then some (place + m.order) else none

/-- The labels of the nodes, where all marks are nodes. -/
def labels (m : PottsModel K) (stray : List ℤ) (side : List Bool) : Labeling :=
  (side.take m.order).zipIdx.map fun (label, i) =>
    label || (m.marks stray side).contains (i : ℤ)

/-! ## Marks -/

lemma mem_marks_iff {v : ℤ} :
    v ∈ m.marks stray side ↔
      ∃ i place, stray[i]? = some place ∧ side.getD (m.order + 2 + i) false = true ∧
        place < 0 ∧ v = place + m.order := by
  simp only [Labeling.getD_eq_true_iff]
  rw [marks, List.mem_filterMap]
  constructor
  · rintro ⟨⟨place, onSide⟩, hmem, hmark⟩
    obtain ⟨⟨rfl, hneg⟩, hv⟩ := Option.ite_none_right_eq_some.1 hmark
    obtain ⟨i, hi⟩ := List.mem_iff_getElem?.1 hmem
    obtain ⟨hplace, honside⟩ := List.getElem?_zip_eq_some.1 hi
    rw [List.getElem?_drop] at honside
    exact ⟨i, place, hplace, honside, hneg, (Option.some.inj hv).symm⟩
  · rintro ⟨i, place, hplace, honside, hneg, rfl⟩
    refine ⟨(place, true), List.mem_iff_getElem?.2 ⟨i, ?_⟩, if_pos ⟨rfl, hneg⟩⟩
    rw [List.getElem?_zip_eq_some, List.getElem?_drop]
    exact ⟨hplace, honside⟩

lemma marks_nil : m.marks [] side = [] := rfl

/-! ## Labels -/

/-- There is a label for every node, if there is a side for every vertex. -/
lemma length_labels (hside : m.order ≤ side.length) :
    (m.labels stray side).length = m.order := by
  rw [labels, List.length_map, List.length_zipIdx, List.length_take, min_eq_left hside]

lemma getD_labels_iff (hside : m.order ≤ side.length) {i : ℕ} :
    (m.labels stray side).getD i false = true ↔
      i < m.order ∧ (side.getD i false = true ∨ (i : ℤ) ∈ m.marks stray side) := by
  rcases lt_or_ge i m.order with hi | hi
  · have hlt : i < side.length := hi.trans_le hside
    simp [labels, List.getD_eq_getElem?_getD, hi, hlt]
  · rw [List.getD_eq_default _ _ ((length_labels hside).trans_le hi)]
    simp [hi]

/-- Without stray places the labels of the nodes are their sides. -/
lemma labels_nil : m.labels [] side = side.take m.order := by
  simp [labels, marks_nil, List.zipIdx_map_fst]

/-! ## The labeling -/

lemma labelingOf_eq_ok_iff {y : Labeling} :
    m.labelingOf stray side = .ok y ↔
      (∀ v ∈ m.marks stray side, 0 ≤ v) ∧ m.labels stray side = y := by
  have hdef : m.labelingOf stray side =
      if (m.marks stray side).any (· < 0) then .error .missingLabel
      else .ok (m.labels stray side) := rfl
  have hany : ((m.marks stray side).any (· < 0) = true) ↔ ¬ ∀ v ∈ m.marks stray side, 0 ≤ v := by
    simp
  rw [hdef, if_congr hany rfl rfl]
  by_cases h : ∀ v ∈ m.marks stray side, 0 ≤ v
  · rw [if_neg (not_not.2 h), Except.ok.injEq]
    exact (and_iff_right h).symm
  · rw [if_pos h]
    constructor
    · rintro ⟨⟩
    · rintro ⟨hnonneg, -⟩
      exact absurd hnonneg h

lemma labelingOf_eq (h : stray = []) : m.labelingOf stray side = .ok (side.take m.order) := by
  subst h
  exact labelingOf_eq_ok_iff.2 ⟨nofun, labels_nil⟩

lemma length_of_labelingOf (hside : m.order ≤ side.length) {y : Labeling}
    (h : m.labelingOf stray side = .ok y) : y.length = m.order := by
  obtain ⟨-, rfl⟩ := labelingOf_eq_ok_iff.1 h
  exact length_labels hside

/-- Of the model only the number of nodes counts. -/
lemma labelingOf_congr {m' : PottsModel K} {stray' : List ℤ} (horder : m'.order = m.order)
    (hstray : stray' = stray) : m'.labelingOf stray' side = m.labelingOf stray side := by
  simp only [labelingOf, horder, hstray]

end PottsModel

end PottsOracle
