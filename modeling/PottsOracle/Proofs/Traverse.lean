import Mathlib.Tactic

/-!
# Steps that may fail

`Except` has steps that may fail.  A chain of steps succeeds if every step does, and `List.mapM`
runs a step on every entry of a list.  The lemmas here take a success apart.
-/

namespace PottsOracle

universe u v

variable {α : Type u} {β : Type v}

lemma mapM_eq_pure_map {m : Type v → Type v} [Monad m] [LawfulMonad m] {f : α → m β} {g : α → β}
    {xs : List α} (h : ∀ x ∈ xs, f x = pure (g x)) : xs.mapM f = pure (xs.map g) := by
  induction xs with
  | nil => rfl
  | cons x xs ih =>
    rw [List.mapM_cons, h x List.mem_cons_self, pure_bind,
      ih fun y hy => h y (List.mem_cons_of_mem x hy), pure_bind, List.map_cons]

/-- Only the steps matter, not the entries that they are about. -/
lemma mapM_congr_map {m : Type v → Type v} [Monad m] [LawfulMonad m] {α' : Type u} {f : α → m β}
    {f' : α' → m β} {xs : List α} {xs' : List α'} (h : xs'.map f' = xs.map f) :
    xs'.mapM f' = xs.mapM f := by
  calc xs'.mapM f' = (xs'.map f').mapM id := by rw [List.mapM_map]; rfl
    _ = (xs.map f).mapM id := by rw [h]
    _ = xs.mapM f := by rw [List.mapM_map]; rfl

lemma exists_forall₂ {r : α → β → Prop} {xs : List α} (h : ∀ x ∈ xs, ∃ y, r x y) :
    ∃ ys, List.Forall₂ r xs ys := by
  induction xs with
  | nil => exact ⟨[], .nil⟩
  | cons x xs ih =>
    obtain ⟨y, hy⟩ := h x List.mem_cons_self
    obtain ⟨ys, hys⟩ := ih fun z hz => h z (List.mem_cons_of_mem x hz)
    exact ⟨y :: ys, .cons hy hys⟩

lemma forall_mem_of_forall₂ {r : α → β → Prop} {q : β → Prop} {xs : List α} {ys : List β}
    (h : List.Forall₂ r xs ys) (hq : ∀ x ∈ xs, ∀ y, r x y → q y) : ∀ y ∈ ys, q y := by
  induction h with
  | nil => simp
  | @cons x y xs ys hxy _ ih =>
    rintro z (_ | ⟨_, hz⟩)
    · exact hq x List.mem_cons_self y hxy
    · exact ih (fun x' hx' => hq x' (List.mem_cons_of_mem x hx')) z hz

/-- In `Option`, too, steps succeed on a list if and only if each of them does. -/
lemma mapM_eq_some_iff {f : α → Option β} {xs : List α} {ys : List β} :
    xs.mapM f = some ys ↔ List.Forall₂ (fun x y => f x = some y) xs ys := by
  induction xs generalizing ys with
  | nil =>
    rw [List.forall₂_nil_left_iff]
    exact ⟨fun h => (Option.some.inj h).symm, fun h => congrArg some h.symm⟩
  | cons x xs ih =>
    rw [List.mapM_cons, List.forall₂_cons_left_iff]
    simp only [Option.bind_eq_bind, Option.bind_eq_some_iff, Option.pure_def, Option.some.injEq, ih]
    constructor
    · rintro ⟨y, hy, zs, hzs, rfl⟩
      exact ⟨y, zs, hy, hzs, rfl⟩
    · rintro ⟨y, zs, hy, hzs, rfl⟩
      exact ⟨y, hy, zs, hzs, rfl⟩

section Except

variable {ε : Type v}

lemma bind_eq_ok_iff {α : Type v} {x : Except ε α} {f : α → Except ε β} {b : β} :
    x >>= f = .ok b ↔ ∃ a, x = .ok a ∧ f a = .ok b := by
  cases x with
  | error e =>
    constructor
    · intro h
      cases h
    · rintro ⟨a, h, -⟩
      cases h
  | ok a =>
    constructor
    · exact fun h => ⟨a, rfl, h⟩
    · rintro ⟨a', h, h'⟩
      cases h
      exact h'

lemma map_eq_ok_iff {α : Type v} {x : Except ε α} {f : α → β} {b : β} :
    x.map f = .ok b ↔ ∃ a, x = .ok a ∧ f a = b := by
  cases x with
  | error e => simp [Except.map]
  | ok a => simp [Except.map]

lemma mapError_eq_ok_iff {ε' : Type v} {x : Except ε β} {f : ε → ε'} {b : β} :
    x.mapError f = .ok b ↔ x = .ok b := by
  cases x with
  | error e => simp [Except.mapError]
  | ok a => simp [Except.mapError]

lemma elim_error_eq_ok_iff {x : Option β} {e : ε} {b : β} :
    x.elim (.error e) .ok = (.ok b : Except ε β) ↔ x = some b := by
  cases x <;> simp

/-- Steps succeed on a list if and only if each of them does. -/
lemma mapM_eq_ok_iff {f : α → Except ε β} {xs : List α} {ys : List β} :
    xs.mapM f = .ok ys ↔ List.Forall₂ (fun x y => f x = .ok y) xs ys := by
  induction xs generalizing ys with
  | nil =>
    rw [List.forall₂_nil_left_iff]
    exact ⟨fun h => (Except.ok.inj h).symm, fun h => congrArg Except.ok h.symm⟩
  | cons x xs ih =>
    rw [List.mapM_cons, List.forall₂_cons_left_iff]
    constructor
    · intro h
      obtain ⟨y, hy, h⟩ := bind_eq_ok_iff.1 h
      obtain ⟨zs, hzs, h⟩ := bind_eq_ok_iff.1 h
      exact ⟨y, zs, hy, ih.1 hzs, (Except.ok.inj h).symm⟩
    · rintro ⟨y, zs, hy, hzs, rfl⟩
      rw [hy, ih.2 hzs]
      rfl

lemma exists_mapM_eq_ok {f : α → Except ε β} {xs : List α} (h : ∀ x ∈ xs, ∃ y, f x = .ok y) :
    ∃ ys, xs.mapM f = .ok ys := by
  obtain ⟨ys, hys⟩ := exists_forall₂ h
  exact ⟨ys, mapM_eq_ok_iff.2 hys⟩

/-- If steps fail with one error only, the list fails with it as soon as one of them does. -/
lemma mapM_eq_error {f : α → Except ε β} {e : ε} {xs : List α}
    (h : ∀ x ∈ xs, (∃ y, f x = .ok y) ∨ f x = .error e) (hfail : ∃ x ∈ xs, f x = .error e) :
    xs.mapM f = .error e := by
  induction xs with
  | nil => simp at hfail
  | cons x xs ih =>
    rw [List.mapM_cons]
    rcases h x List.mem_cons_self with ⟨y, hy⟩ | herror
    · have hrest : ∃ z ∈ xs, f z = .error e := by
        rcases (List.exists_mem_cons_iff _ _ _).1 hfail with hx | hrest
        · rw [hy] at hx
          cases hx
        · exact hrest
      rw [hy, ih (fun z hz => h z (List.mem_cons_of_mem x hz)) hrest]
      rfl
    · rw [herror]
      rfl

/-- Where a step succeeds, its answer is that of a function. -/
lemma mapM_eq_ok_iff_eq_map {f : α → Except ε β} {g : α → β} (hg : ∀ x y, f x = .ok y → g x = y)
    {xs : List α} {ys : List β} :
    xs.mapM f = .ok ys ↔ (∀ x ∈ xs, f x = .ok (g x)) ∧ ys = xs.map g := by
  constructor
  · intro h
    have hall : List.Forall₂ (fun x y => f x = .ok (g x) ∧ y = g x) xs ys := by
      refine (mapM_eq_ok_iff.1 h).imp ?_
      intro x y hy
      rw [hg x y hy]
      exact ⟨hy, rfl⟩
    rw [List.forall₂_and_left] at hall
    refine ⟨hall.1, ?_⟩
    rw [← List.forall₂_eq_eq_eq, List.forall₂_map_right_iff]
    exact hall.2.flip
  · rintro ⟨h, rfl⟩
    exact mapM_eq_pure_map h

end Except

end PottsOracle
