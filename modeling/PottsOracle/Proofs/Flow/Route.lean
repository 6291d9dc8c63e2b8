import Mathlib.Tactic
import Mathlib.Data.Fintype.Card
import PottsOracle.Flow.Cut

/-!
# Searches find exactly the vertices with a route

`IsRoute` says what a route is: steps of positive capacity that end at the target and meet no vertex
twice.  The rounds of `Routes.search` keep two facts:

* every stored route is one (`Routes.Sound`), and all its vertices have stored routes as well, so
  that a new first vertex does not occur on it;
* no vertex loses its route.

The last round finds nothing new, so that every vertex with a step to a vertex with a route has a
route itself (`Routes.closed_search`).
-/

namespace PottsOracle

variable {n : Nat} {capacity : Grid n} {target : Fin n}

namespace Network

@[simp] lemma arcsFrom_nil (u : Fin n) : arcsFrom u [] = [] := rfl

@[simp] lemma arcsFrom_cons (u v : Fin n) (route : List (Fin n)) :
    arcsFrom u (v :: route) = (u, v) :: arcsFrom v route := rfl

/-- The pairs on a route join vertices of the route. -/
lemma mem_of_mem_arcsFrom {u : Fin n} {route : List (Fin n)} {arc : Fin n × Fin n}
    (h : arc ∈ arcsFrom u route) : arc.1 ∈ u :: route ∧ arc.2 ∈ u :: route := by
  obtain ⟨x, y⟩ := arc
  obtain ⟨hx, hy⟩ := List.of_mem_zip h
  exact ⟨hx, List.mem_cons_of_mem _ hy⟩

end Network

/-- A route from a vertex to a target: the vertices that follow it, each one step further. -/
structure IsRoute (capacity : Grid n) (target u : Fin n) (route : List (Fin n)) : Prop where
  nodup : (u :: route).Nodup
  step : ∀ arc ∈ Network.arcsFrom u route, 0 < capacity.get arc.1 arc.2
  getLast : (u :: route).getLast (List.cons_ne_nil u route) = target

namespace IsRoute

lemma nil (capacity : Grid n) (target : Fin n) : IsRoute capacity target target [] :=
  ⟨List.nodup_singleton target, by simp, rfl⟩

lemma cons {u v : Fin n} {route : List (Fin n)} (h : IsRoute capacity target v route)
    (hstep : 0 < capacity.get u v) (hu : u ∉ v :: route) :
    IsRoute capacity target u (v :: route) := by
  refine ⟨List.nodup_cons.2 ⟨hu, h.nodup⟩, ?_, ?_⟩
  · intro arc harc
    rw [Network.arcsFrom_cons] at harc
    rcases List.mem_cons.1 harc with rfl | harc
    · exact hstep
    · exact h.step arc harc
  · rw [List.getLast_cons (List.cons_ne_nil v route)]
    exact h.getLast

/-- Somewhere on a route a set that holds its start and not the target is left. -/
lemma exists_leaving {u : Fin n} {route : List (Fin n)} (h : IsRoute capacity target u route)
    {side : Finset (Fin n)} (hu : u ∈ side) (htarget : target ∉ side) :
    ∃ x ∈ side, ∃ y ∉ side, 0 < capacity.get x y := by
  induction route generalizing u with
  | nil =>
    have : u = target := h.getLast
    exact absurd (this ▸ hu) htarget
  | cons v route ih =>
    have hstep : 0 < capacity.get u v := h.step (u, v) (by simp)
    by_cases hv : v ∈ side
    · refine ih ⟨h.nodup.of_cons, ?_, ?_⟩ hv
      · intro arc harc
        exact h.step arc (by simp [harc])
      · have hlast := h.getLast
        rwa [List.getLast_cons (List.cons_ne_nil v route)] at hlast
    · exact ⟨u, hu, v, hv, hstep⟩

end IsRoute

namespace Routes

/-- Every stored route is a route, and its vertices have stored routes, too. -/
structure Sound (capacity : Grid n) (target : Fin n) (routes : Routes n) : Prop where
  isRoute : ∀ {u route}, routes.get? u = some route → IsRoute capacity target u route
  reaches : ∀ {u route}, routes.get? u = some route → ∀ v ∈ route, routes.reaches v

/-- A vertex with a step to a vertex with a route has a route itself. -/
def Closed (capacity : Grid n) (routes : Routes n) : Prop :=
  ∀ u v, 0 < capacity.get u v → routes.reaches v → routes.reaches u

lemma reaches_iff {routes : Routes n} {u : Fin n} :
    routes.reaches u ↔ ∃ route, routes.get? u = some route := by
  simp [reaches, Option.isSome_iff_exists]

lemma reaches_start (target : Fin n) : (start target).reaches target := by
  simp [reaches]

/-! ## One round -/

/-- A round keeps a route, or puts a step in front of one. -/
lemma route?_eq_some {routes : Routes n} {u : Fin n} {route : List (Fin n)}
    (h : routes.route? capacity u = some route) :
    routes.get? u = some route ∨
      routes.get? u = none ∧ ∃ v rest, 0 < capacity.get u v ∧ routes.get? v = some rest ∧
        route = v :: rest := by
  rw [route?] at h
  split at h
  · rename_i hold
    exact Or.inl (hold.trans h)
  · rename_i hnone
    -- the vertex takes the first step to a vertex with a route
    obtain ⟨v, -, hv⟩ := List.exists_of_findSome?_eq_some h
    split at hv
    · rename_i hstep
      obtain ⟨rest, hrest, rfl⟩ := Option.map_eq_some_iff.1 hv
      exact Or.inr ⟨hnone, v, rest, hstep, hrest, rfl⟩
    · cases hv

/-- No vertex loses its route. -/
lemma get?_extend_of_eq_some {routes : Routes n} {u : Fin n} {route : List (Fin n)}
    (h : routes.get? u = some route) : (routes.extend capacity).get? u = some route := by
  rw [get?_extend, route?, h]

lemma reaches_extend_of_reaches {routes : Routes n} {u : Fin n} (h : routes.reaches u) :
    (routes.extend capacity).reaches u := by
  obtain ⟨route, hroute⟩ := reaches_iff.1 h
  exact reaches_iff.2 ⟨route, get?_extend_of_eq_some hroute⟩

/-- A round finds every vertex with a step to a vertex with a route. -/
lemma reaches_extend_of_step {routes : Routes n} {u v : Fin n} (hstep : 0 < capacity.get u v)
    (h : routes.reaches v) : (routes.extend capacity).reaches u := by
  obtain ⟨rest, hrest⟩ := reaches_iff.1 h
  rw [reaches, get?_extend, route?]
  split
  · rfl
  · rw [List.findSome?_isSome_iff]
    exact ⟨v, List.mem_finRange v, by simp [hstep, hrest]⟩

lemma Sound.extend {routes : Routes n} (h : Sound capacity target routes) :
    Sound capacity target (routes.extend capacity) := by
  constructor
  · intro u route hroute
    rw [get?_extend] at hroute
    rcases route?_eq_some hroute with hold | ⟨hnone, v, rest, hstep, hrest, rfl⟩
    · exact h.isRoute hold
    · refine (h.isRoute hrest).cons hstep ?_
      -- the vertices of the old route had routes before, the new one had none
      have hreached : ∀ x ∈ v :: rest, routes.reaches x := by
        intro x hx
        rcases List.mem_cons.1 hx with rfl | hx
        · exact reaches_iff.2 ⟨rest, hrest⟩
        · exact h.reaches hrest x hx
      intro hu
      obtain ⟨route, hroute⟩ := reaches_iff.1 (hreached u hu)
      rw [hnone] at hroute
      cases hroute
  · intro u route hroute x hx
    rw [get?_extend] at hroute
    refine reaches_extend_of_reaches ?_
    rcases route?_eq_some hroute with hold | ⟨-, v, rest, -, hrest, rfl⟩
    · exact h.reaches hold x hx
    · rcases List.mem_cons.1 hx with rfl | hx
      · exact reaches_iff.2 ⟨rest, hrest⟩
      · exact h.reaches hrest x hx

/-! ## All rounds -/

lemma sound_start (capacity : Grid n) (target : Fin n) :
    Sound capacity target (start target) := by
  have hstored : ∀ {u route}, (start target).get? u = some route → u = target ∧ route = [] := by
    intro u route h
    rw [get?_start] at h
    split at h
    · rename_i hu
      exact ⟨hu, (Option.some.inj h).symm⟩
    · cases h
  constructor
  · intro u route h
    obtain ⟨rfl, rfl⟩ := hstored h
    exact IsRoute.nil capacity u
  · intro u route h x hx
    obtain ⟨-, rfl⟩ := hstored h
    cases hx

lemma Sound.extendAll {routes : Routes n} (h : Sound capacity target routes) (rounds : Nat) :
    Sound capacity target (extendAll capacity rounds routes) := by
  induction rounds generalizing routes with
  | zero => exact h
  | succ rounds ih =>
    rw [Routes.extendAll]
    split
    · exact h
    · exact ih h.extend

lemma count_eq_card (routes : Routes n) :
    routes.count = (Finset.univ.filter fun u => routes.reaches u = true).card := by
  simp [count, List.countP_eq_length_filter, Fin.univ_def, Finset.filter, Finset.card]

lemma count_le (routes : Routes n) : routes.count ≤ n := by
  rw [count_eq_card]
  exact (Finset.card_le_univ _).trans_eq (Fintype.card_fin n)

lemma count_le_count_extend (routes : Routes n) :
    routes.count ≤ (routes.extend capacity).count := by
  rw [count_eq_card, count_eq_card]
  refine Finset.card_le_card ?_
  intro u hu
  simp only [Finset.mem_filter, Finset.mem_univ, true_and] at hu ⊢
  exact reaches_extend_of_reaches hu

/-- A round that finds nothing new leaves nothing to be found. -/
lemma closed_of_count_extend_eq {routes : Routes n}
    (h : (routes.extend capacity).count = routes.count) : Closed capacity routes := by
  intro u v hstep hv
  have hsub : (Finset.univ.filter fun x => routes.reaches x = true) ⊆
      Finset.univ.filter fun x => (routes.extend capacity).reaches x = true := by
    intro x hx
    simp only [Finset.mem_filter, Finset.mem_univ, true_and] at hx ⊢
    exact reaches_extend_of_reaches hx
  rw [count_eq_card, count_eq_card] at h
  -- no vertex was lost and there are as many as before, so they are the same
  have hsame := Finset.eq_of_subset_of_card_le hsub h.le
  have hu : u ∈ Finset.univ.filter fun x => (routes.extend capacity).reaches x = true := by
    simp [reaches_extend_of_step hstep hv]
  rw [← hsame] at hu
  simpa using hu

/-- Enough rounds for the vertices without a route leave nothing to be found. -/
lemma closed_extendAll (rounds : Nat) (routes : Routes n) (h : n ≤ rounds + routes.count) :
    Closed capacity (extendAll capacity rounds routes) := by
  induction rounds generalizing routes with
  | zero =>
    -- every vertex has a route, so that a further round finds nothing
    refine closed_of_count_extend_eq (le_antisymm ?_ (count_le_count_extend routes))
    have hle := count_le (routes.extend capacity)
    rw [extendAll]
    omega
  | succ rounds ih =>
    rw [extendAll]
    split
    · rename_i hsame
      exact closed_of_count_extend_eq hsame
    · rename_i hnew
      refine ih (routes.extend capacity) ?_
      have hle : routes.count ≤ (routes.extend capacity).count := count_le_count_extend routes
      omega

lemma reaches_extendAll_of_reaches {routes : Routes n} {u : Fin n} (h : routes.reaches u)
    (rounds : Nat) : (extendAll capacity rounds routes).reaches u := by
  induction rounds generalizing routes with
  | zero => exact h
  | succ rounds ih =>
    rw [extendAll]
    split
    · exact h
    · exact ih (reaches_extend_of_reaches h)

/-! ## The search -/

lemma sound_search (capacity : Grid n) (target : Fin n) :
    Sound capacity target (search capacity target) :=
  (sound_start capacity target).extendAll n

lemma closed_search (capacity : Grid n) (target : Fin n) :
    Closed capacity (search capacity target) :=
  closed_extendAll n (start target) (Nat.le_add_right n _)

lemma reaches_search_target (capacity : Grid n) (target : Fin n) :
    (search capacity target).reaches target :=
  reaches_extendAll_of_reaches (reaches_start target) n

end Routes

end PottsOracle
