import Mathlib.Tactic
import PottsOracle.Input.Block

/-!
# Nested lists

The nesting of a value lists the lengths of its lists from the outside to the inside.  A value without
an extent is no list (`Value.nesting?_eq_nil_iff`), a value with one extent is a row
(`Value.nesting?_eq_singleton_iff`), and a value with more extents is a list of equally nested values.

A nesting says how many leaves there are: the product of its extents
(`Value.length_leaves_of_nesting`).
-/

namespace PottsOracle

lemma Block.capacity_cons (n : Nat) (shape : List Nat) :
    capacity (n :: shape) = n * capacity shape := by
  rw [capacity, capacity, ← List.prod_eq_foldl, ← List.prod_eq_foldl, List.prod_cons]

namespace Value

/-! ## Nestings -/

/-- A list of some values of which none is a list. -/
def IsRow (n : Nat) (v : Value) : Prop :=
  ∃ items, v = .list items ∧ items.length = n ∧ ∀ item ∈ items, ∀ inner, item ≠ .list inner

lemma nestingsEqual_eq_true_iff {shape : List Nat} {vs : List Value} :
    nestingsEqual shape vs = true ↔ ∀ v ∈ vs, v.nesting? = some shape := by
  induction vs with
  | nil => simp [nestingsEqual]
  | cons v vs ih => simp [nestingsEqual, ih]

lemma nesting?_cons_eq_some_iff {v : Value} {vs : List Value} {shape : List Nat} :
    (Value.list (v :: vs)).nesting? = some shape ↔
      ∃ inner, shape = (vs.length + 1) :: inner ∧ ∀ u ∈ v :: vs, u.nesting? = some inner := by
  rw [nesting?]
  simp only [Option.bind_eq_bind, Option.bind_eq_some_iff, Option.ite_none_right_eq_some,
    Option.some.injEq, nestingsEqual_eq_true_iff, List.forall_mem_cons]
  constructor
  · rintro ⟨inner, hv, hvs, rfl⟩
    exact ⟨inner, rfl, hv, hvs⟩
  · rintro ⟨inner, rfl, hv, hvs⟩
    exact ⟨inner, hv, hvs, rfl⟩

/-- Only what is no list has no extent. -/
lemma nesting?_eq_nil_iff {v : Value} : v.nesting? = some [] ↔ ∀ inner, v ≠ .list inner := by
  cases v with
  | list items =>
    have hlist : (Value.list items).nesting? ≠ some [] := by
      cases items with
      | nil => simp [nesting?]
      | cons v vs => simp [nesting?_cons_eq_some_iff]
    simpa using hlist
  | _ => simp [nesting?]

/-- Exactly rows have one extent. -/
lemma nesting?_eq_singleton_iff {v : Value} {n : Nat} : v.nesting? = some [n] ↔ v.IsRow n := by
  cases v with
  | list items =>
    cases items with
    | nil => simp [nesting?, IsRow, eq_comm]
    | cons v vs =>
      rw [nesting?_cons_eq_some_iff]
      constructor
      · rintro ⟨inner, hshape, hitems⟩
        obtain ⟨rfl, rfl⟩ := List.cons.inj hshape
        exact ⟨v :: vs, rfl, rfl, fun u hu => nesting?_eq_nil_iff.1 (hitems u hu)⟩
      · rintro ⟨items, hitems, rfl, hflat⟩
        obtain rfl := Value.list.inj hitems
        exact ⟨[], rfl, fun u hu => nesting?_eq_nil_iff.2 (hflat u hu)⟩
  | _ => simp [nesting?, IsRow]

lemma shape?_eq_singleton_iff {v : Value} {n : Nat} : v.shape? = some [n] ↔ v.IsRow n := by
  rw [shape?, Option.filter_eq_some_iff, nesting?_eq_singleton_iff]
  simp [maxExtents]

/-! ## Leaves -/

lemma leavesOfItems_eq {items : List Value} (h : ∀ item ∈ items, ∀ inner, item ≠ .list inner) :
    leavesOfItems items = items := by
  induction items with
  | nil => rfl
  | cons v vs ih =>
    have hv : v.leaves = [v] := by
      cases v with
      | list inner => exact absurd rfl (h _ List.mem_cons_self inner)
      | _ => simp [leaves]
    rw [leavesOfItems, hv, ih fun u hu => h u (List.mem_cons_of_mem v hu)]
    rfl

lemma IsRow.length_leaves {v : Value} {n : Nat} (h : v.IsRow n) : v.leaves.length = n := by
  obtain ⟨items, rfl, hlength, hflat⟩ := h
  rw [leaves, leavesOfItems_eq hflat, hlength]

lemma length_leavesOfItems {items : List Value} {k : Nat}
    (h : ∀ item ∈ items, item.leaves.length = k) :
    (leavesOfItems items).length = items.length * k := by
  induction items with
  | nil => simp [leavesOfItems]
  | cons v vs ih =>
    have hv := h v List.mem_cons_self
    have hvs := ih fun u hu => h u (List.mem_cons_of_mem v hu)
    rw [leavesOfItems, List.length_append, hv, hvs, List.length_cons, Nat.succ_mul, Nat.add_comm]

/-- A nesting says how many leaves there are. -/
lemma length_leaves_of_nesting {v : Value} {shape : List Nat} (h : v.nesting? = some shape) :
    v.leaves.length = Block.capacity shape := by
  induction shape generalizing v with
  | nil =>
    cases v with
    | list items => exact absurd rfl (nesting?_eq_nil_iff.1 h items)
    | _ => simp [leaves, Block.capacity]
  | cons n inner ih =>
    cases v with
    | list items =>
      cases items with
      | nil =>
        obtain ⟨rfl, -⟩ : 0 = n ∧ [] = inner := by simpa [nesting?] using h
        simp [leaves, leavesOfItems, Block.capacity_cons]
      | cons v vs =>
        obtain ⟨own, hshape, hitems⟩ := nesting?_cons_eq_some_iff.1 h
        obtain ⟨rfl, rfl⟩ := List.cons.inj hshape
        rw [leaves, length_leavesOfItems fun u hu => ih (hitems u hu), Block.capacity_cons,
          List.length_cons]
    | _ => simp [nesting?] at h

/-- The entries of a block hold equally many leaves. -/
lemma exists_length_leaves {entries : List Value} {shape : List Nat}
    (h : (Value.list entries).nesting? = some shape) :
    ∃ k, (∀ entry ∈ entries, entry.leaves.length = k) ∧
      (Value.list entries).leaves.length = entries.length * k := by
  have hentries : ∃ k, ∀ entry ∈ entries, entry.leaves.length = k := by
    cases entries with
    | nil => exact ⟨0, by simp⟩
    | cons v vs =>
      obtain ⟨inner, -, hitems⟩ := nesting?_cons_eq_some_iff.1 h
      exact ⟨Block.capacity inner, fun u hu => length_leaves_of_nesting (hitems u hu)⟩
  obtain ⟨k, hk⟩ := hentries
  exact ⟨k, hk, length_leavesOfItems hk⟩

end Value

end PottsOracle
