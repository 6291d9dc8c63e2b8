import PottsOracle.Proofs.Potts.Quantised

/-!
# Models without repeated couplings

If no two couplings join the same two nodes, every coupling counts, and the quantised objective is a
sum over couplings as the objective itself is (`PottsModel.quantisedScore_eq_sum`).  Couplings of a
node with itself may be repeated; they have no units.
-/

namespace PottsOracle

namespace PottsModel

/-- No two couplings join the same two different places, in whatever direction. -/
def IsSimple {K : Type} [Scalar K] (m : PottsModel K) : Prop :=
  m.couplings.Pairwise fun c d =>
    c.first ≠ c.second → s(c.first, c.second) ≠ s(d.first, d.second)

instance {K : Type} [Scalar K] (m : PottsModel K) : Decidable m.IsSimple :=
  inferInstanceAs (Decidable (List.Pairwise _ _))

/-- The weight of a coupling in units: nothing without weight or between a place and itself. -/
def couplingUnits (m : PottsModel Rat) (c : Coupling Rat) : ℤ :=
  if c.weight = 0 ∨ c.first = c.second then 0 else m.units c.weight

variable {m : PottsModel Rat}

/-- If only one entry of a list can be found, it is found from either end. -/
lemma elim_find?_reverse {A : Type} {p : A → Prop} [DecidablePred p] (f : A → ℤ) {entries : List A}
    (h : entries.Pairwise fun x y => ¬ (p x ∧ p y)) :
    (entries.reverse.find? (p ·)).elim 0 f =
      (entries.map fun x => if p x then f x else 0).sum := by
  induction entries with
  | nil => rfl
  | cons x entries ih =>
    obtain ⟨hx, hrest⟩ := List.pairwise_cons.1 h
    rw [List.reverse_cons, List.find?_append, List.map_cons, List.sum_cons, ← ih hrest]
    by_cases hp : p x
    · have hnone : entries.reverse.find? (p ·) = none := by
        rw [List.find?_eq_none]
        intro y hy
        simpa [hp] using hx y (List.mem_reverse.1 hy)
      simp [hnone, hp]
    · simp [hp]

lemma ends_eq_of_joins {c : Coupling Rat} {i j : Nat} (h : c.Joins i j) :
    s(c.first, c.second) = s((i : ℤ), (j : ℤ)) := by
  rcases h with ⟨hfirst, hsecond⟩ | ⟨hfirst, hsecond⟩
  · rw [hfirst, hsecond]
  · rw [hfirst, hsecond, Sym2.eq_swap]

/-- The weight between two nodes is that of all couplings that join them, of which there is at most
one. -/
lemma quantisedWeight_eq_sum (hsimple : m.IsSimple) {i j : Nat} (hij : i ≠ j) :
    m.quantisedWeight i j =
      (m.couplings.map fun c => if c.Joins i j then m.couplingUnits c else 0).sum := by
  have hdifferent : ∀ c : Coupling Rat, c.Joins i j → c.first ≠ c.second := by
    rintro c (⟨hfirst, hsecond⟩ | ⟨hfirst, hsecond⟩)
    · omega
    · omega
  have hpair : m.couplings.Pairwise fun c d =>
      ¬ ((c.weight ≠ 0 ∧ c.Joins i j) ∧ d.weight ≠ 0 ∧ d.Joins i j) := by
    refine hsimple.imp ?_
    rintro c d hends ⟨⟨-, hc⟩, -, hd⟩
    exact hends (hdifferent c hc) ((ends_eq_of_joins hc).trans (ends_eq_of_joins hd).symm)
  have hlast : m.quantisedWeight i j =
      (m.couplings.reverse.find? fun c => c.weight ≠ 0 ∧ c.Joins i j).elim 0
        fun c => m.units c.weight := by
    rw [quantisedWeight, lastWeight?]
    cases m.couplings.reverse.find? fun c => c.weight ≠ 0 ∧ c.Joins i j <;> rfl
  rw [hlast, elim_find?_reverse _ hpair]
  refine congrArg List.sum (List.map_congr_left fun c _ => ?_)
  by_cases hjoins : c.Joins i j
  · by_cases hweight : c.weight = 0
    · simp [hjoins, hweight, couplingUnits]
    · simp [hjoins, hweight, couplingUnits, hdifferent c hjoins]
  · simp [hjoins]

/-- Of all pairs of different nodes one is joined by a coupling. -/
lemma sum_joins {c : Coupling Rat} {n : Nat} (hfirst : 0 ≤ c.first ∧ c.first < n)
    (hsecond : 0 ≤ c.second ∧ c.second < n) (hne : c.first ≠ c.second) (y : Labeling) (x : ℤ) :
    (∑ i ∈ Finset.range n, ∑ j ∈ Finset.range i,
        if y.getD i false = y.getD j false then (if c.Joins i j then x else 0) else 0) =
      if Agree y c then x else 0 := by
  obtain ⟨a, ha⟩ := Int.eq_ofNat_of_zero_le hfirst.1
  obtain ⟨b, hb⟩ := Int.eq_ofNat_of_zero_le hsecond.1
  -- the larger end is the row, the smaller one the column
  have hrow : ∀ i ∈ Finset.range n, i ≠ max a b → (∑ j ∈ Finset.range i,
      if y.getD i false = y.getD j false then (if c.Joins i j then x else 0) else 0) = 0 := by
    intro i _ hi
    refine Finset.sum_eq_zero fun j hj => ?_
    rw [Finset.mem_range] at hj
    have hnot : ¬ c.Joins i j := by
      rintro (⟨h1, h2⟩ | ⟨h1, h2⟩) <;> omega
    rw [if_neg hnot, ite_self]
  have hcolumn : ∀ j ∈ Finset.range (max a b), j ≠ min a b →
      (if y.getD (max a b) false = y.getD j false then
        (if c.Joins (max a b) j then x else 0) else 0) = 0 := by
    intro j _ hj
    have hnot : ¬ c.Joins (max a b) j := by
      rintro (⟨h1, h2⟩ | ⟨h1, h2⟩) <;> omega
    rw [if_neg hnot, ite_self]
  have hjoins : c.Joins (max a b) (min a b) := by
    rcases le_total a b with hab | hab
    · right
      omega
    · left
      omega
  have hagree : Agree y c ↔ y.getD (max a b) false = y.getD (min a b) false := by
    rw [Agree, ha, hb]
    rcases le_total a b with hab | hab
    · rw [max_eq_right hab, min_eq_left hab]
      exact eq_comm
    · rw [max_eq_left hab, min_eq_right hab]
      rfl
  rw [Finset.sum_eq_single (max a b) hrow, Finset.sum_eq_single (min a b) hcolumn, if_pos hjoins]
  · simp only [hagree]
  · intro hnot
    exact absurd (Finset.mem_range.2 (by omega)) hnot
  · intro hnot
    exact absurd (Finset.mem_range.2 (by omega)) hnot

/-- The sum over pairs of nodes of what couplings give to the pair is a sum over the couplings. -/
lemma sum_pairs_joins (hm : m.JoinsNodes) (y : Labeling) {couplings : List (Coupling Rat)}
    (hsub : ∀ c ∈ couplings, c ∈ m.couplings) :
    (∑ i ∈ Finset.range m.order, ∑ j ∈ Finset.range i,
        if y.getD i false = y.getD j false then
          (couplings.map fun c => if c.Joins i j then m.couplingUnits c else 0).sum else 0) =
      (couplings.map fun c => if Agree y c then m.couplingUnits c else 0).sum := by
  induction couplings with
  | nil => simp
  | cons c couplings ih =>
    have hrest := ih fun d hd => hsub d (List.mem_cons_of_mem c hd)
    have hc : (∑ i ∈ Finset.range m.order, ∑ j ∈ Finset.range i,
        if y.getD i false = y.getD j false then
          (if c.Joins i j then m.couplingUnits c else 0) else 0) =
        if Agree y c then m.couplingUnits c else 0 := by
      obtain ⟨hfirst, hsecond⟩ := hm c (hsub c List.mem_cons_self)
      by_cases hloop : c.first = c.second
      · simp [couplingUnits, hloop]
      · exact sum_joins hfirst hsecond hloop y _
    rw [List.map_cons, List.sum_cons, ← hc, ← hrest, ← Finset.sum_add_distrib]
    refine Finset.sum_congr rfl fun i _ => ?_
    rw [← Finset.sum_add_distrib]
    refine Finset.sum_congr rfl fun j _ => ?_
    rw [List.map_cons, List.sum_cons]
    split
    · rfl
    · rfl

/-- The quantised objective, as a sum over nodes and a sum over couplings. -/
theorem quantisedScore_eq_sum (hm : m.JoinsNodes) (hsimple : m.IsSimple) (y : Labeling) :
    m.quantisedScore y =
      ∑ i ∈ Finset.range m.order, (if y.getD i false then m.quantisedPotential i else 0)
        + (m.couplings.map fun c => if Agree y c then m.couplingUnits c else 0).sum := by
  rw [quantisedScore, ← sum_pairs_joins hm y fun _ h => h]
  congr 1
  refine Finset.sum_congr rfl fun i _ => Finset.sum_congr rfl fun j hj => ?_
  rw [quantisedWeight_eq_sum hsimple (Finset.mem_range.1 hj).ne']

end PottsModel

end PottsOracle
