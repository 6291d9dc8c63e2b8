import Mathlib.Tactic
import Mathlib.Data.List.Range
import Mathlib.Data.List.Perm.Basic
import Mathlib.Logic.Equiv.Defs

/-!
# Lists in another order

There are two ways in which the entries of a list change their places.  In `Moved σ xs ys` the
permutation `σ` says where every entry goes, as for what is listed by node number.  In
`Rearranged r xs ys` entries go anywhere and are changed on the way, as for edges that are numbered
anew.  Either way what does not depend on the order is the same for both lists.
-/

namespace PottsOracle

variable {α β γ δ : Type}

/-! ## Entries that a permutation moves -/

/-- The permutation moves every entry of the first list to its place in the second. -/
def Moved (σ : Equiv.Perm ℕ) (xs ys : List α) : Prop := ∀ i, ys[σ i]? = xs[i]?

namespace Moved

variable {σ : Equiv.Perm ℕ} {xs ys : List α} {zs ws : List β}

lemma lt_length_iff (h : Moved σ xs ys) (i : ℕ) : i < xs.length ↔ σ i < ys.length := by
  rw [← not_iff_not, not_lt, not_lt, ← List.getElem?_eq_none_iff, ← List.getElem?_eq_none_iff, h i]

lemma symm (h : Moved σ xs ys) : Moved σ.symm ys xs := by
  intro j
  rw [← h (σ.symm j), σ.apply_symm_apply]

lemma getD_eq (h : Moved σ xs ys) (i : ℕ) (a : α) : ys.getD (σ i) a = xs.getD i a := by
  rw [List.getD_eq_getElem?_getD, List.getD_eq_getElem?_getD, h i]

lemma map (h : Moved σ xs ys) (f : α → β) : Moved σ (xs.map f) (ys.map f) := by
  intro i
  rw [List.getElem?_map, List.getElem?_map, h i]

lemma zipWith (h : Moved σ xs ys) (h' : Moved σ zs ws) (f : α → β → γ) :
    Moved σ (List.zipWith f xs zs) (List.zipWith f ys ws) := by
  intro i
  rw [List.getElem?_zipWith, List.getElem?_zipWith, h i, h' i]

lemma zip (h : Moved σ xs ys) (h' : Moved σ zs ws) : Moved σ (xs.zip zs) (ys.zip ws) := by
  rw [List.zip_eq_zipWith, List.zip_eq_zipWith]
  exact h.zipWith h' Prod.mk

/-- The places of one list are moved to those of the other. -/
lemma range_perm (h : Moved σ xs ys) :
    ((List.range xs.length).map σ).Perm (List.range ys.length) := by
  rw [List.perm_ext_iff_of_nodup (List.nodup_range.map σ.injective) List.nodup_range]
  intro j
  rw [List.mem_range, List.mem_map]
  constructor
  · rintro ⟨i, hi, rfl⟩
    exact (h.lt_length_iff i).1 (List.mem_range.1 hi)
  · intro hj
    refine ⟨σ.symm j, List.mem_range.2 ((h.lt_length_iff _).2 ?_), σ.apply_symm_apply j⟩
    rwa [σ.apply_symm_apply]

lemma length_eq (h : Moved σ xs ys) : ys.length = xs.length := by
  simpa using h.range_perm.length_eq.symm

/-- Both lists have the same entries. -/
theorem perm (h : Moved σ xs ys) : xs.Perm ys := by
  have hall : ∀ zs : List α, (List.range zs.length).filterMap (zs[·]?) = zs := by
    intro zs
    have hget : (List.range zs.length).map (zs[·]?) = zs.map some := by
      refine List.ext_getElem (by simp) fun i hi _ => ?_
      simp only [List.length_map, List.length_range] at hi
      simp [hi]
    calc (List.range zs.length).filterMap (zs[·]?)
        = ((List.range zs.length).map (zs[·]?)).filterMap id := by rw [List.filterMap_map]; rfl
      _ = zs := by rw [hget, List.filterMap_map, Function.id_comp, List.filterMap_some]
  have hmoved := h.range_perm.filterMap (ys[·]?)
  rw [List.filterMap_map, hall ys] at hmoved
  have hsame : ((ys[·]?) ∘ σ : ℕ → Option α) = (xs[·]?) := funext h
  rwa [hsame, hall xs] at hmoved

/-- Every list that the permutation does not take out of its range can be moved. -/
lemma exists_of_range (hσ : ∀ i, i < xs.length ↔ σ i < xs.length) : ∃ ys, Moved σ xs ys := by
  have hinv : ∀ j, j < xs.length → σ.symm j < xs.length := by
    intro j hj
    rwa [hσ, σ.apply_symm_apply]
  refine ⟨List.ofFn fun j : Fin xs.length => xs.get ⟨σ.symm j, hinv j j.isLt⟩, ?_⟩
  intro i
  by_cases hi : i < xs.length
  · rw [List.getElem?_ofFn, dif_pos ((hσ i).1 hi), List.getElem?_eq_getElem hi]
    simp
  · rw [List.getElem?_ofFn, dif_neg (mt (hσ i).2 hi), List.getElem?_eq_none (not_lt.1 hi)]

end Moved

/-! ## Entries that are changed on the way -/

/-- Every entry of the first list has a partner in the second, wherever that is. -/
def Rearranged (r : α → β → Prop) (xs : List α) (ys : List β) : Prop :=
  ∃ zs, List.Forall₂ r xs zs ∧ zs.Perm ys

namespace Rearranged

variable {r : α → β → Prop} {xs : List α} {ys : List β}

lemma map {s : γ → δ → Prop} (h : Rearranged r xs ys) {f : α → γ} {g : β → δ}
    (hr : ∀ x y, r x y → s (f x) (g y)) : Rearranged s (xs.map f) (ys.map g) := by
  obtain ⟨zs, hzs, hperm⟩ := h
  refine ⟨zs.map g, ?_, hperm.map g⟩
  rw [List.forall₂_map_left_iff, List.forall₂_map_right_iff]
  exact hzs.imp hr

/-- What partners have in common both lists have in common. -/
lemma filterMap_perm (h : Rearranged r xs ys) {f : α → Option γ} {g : β → Option γ}
    (hr : ∀ x y, r x y → f x = g y) : (xs.filterMap f).Perm (ys.filterMap g) := by
  obtain ⟨zs, hzs, hperm⟩ := h
  have hsame : xs.filterMap f = zs.filterMap g := by
    clear hperm
    induction hzs with
    | nil => rfl
    | cons hxz _ ih => rw [List.filterMap_cons, List.filterMap_cons, hr _ _ hxz, ih]
  rw [hsame]
  exact hperm.filterMap g

lemma map_perm (h : Rearranged r xs ys) {f : α → γ} {g : β → γ} (hr : ∀ x y, r x y → f x = g y) :
    (xs.map f).Perm (ys.map g) := by
  rw [← List.filterMap_eq_map, ← List.filterMap_eq_map]
  exact h.filterMap_perm fun x y hxy => congrArg some (hr x y hxy)

end Rearranged

end PottsOracle
