import PottsOracle.Proofs.Arith.Rounded
import PottsOracle.Proofs.Flow.Cut
import PottsOracle.Proofs.Potts.Arcs
import PottsOracle.Proofs.Potts.Labels

/-!
# When capacities cannot be scaled

The minimum cut scales the largest capacity to 2^40.  In floating point the factor is infinite if the
largest capacity is at most 2^-984, and then no capacity can be rounded to a whole number
(`PottsModel.quantised_eq_error`).  A larger one has a factor that is a positive number, by which every
capacity is scaled to at most 2^41 (`PottsModel.exists_quantised`).

So on numbers the minimum cut finds a labeling of all nodes, unless no capacity is above 2^-984 and some
capacity is to be scaled (`PottsModel.minCutLabeling_eq_ok_iff_not_overflows`).
-/

namespace PottsOracle

namespace PottsModel

section Scaled

variable {K : Type} [Scalar K] {m : PottsModel K}

/-! ## Arcs -/

/-- The capacities that are to be scaled: the size of a potential that is not zero, and a weight that is
not zero and joins two places. -/
def IsCapacity (m : PottsModel K) (x : K) : Prop :=
  (∃ u ∈ m.potentials, Scalar.eq u 0 = false ∧ Scalar.abs u = x) ∨
    ∃ c ∈ m.couplings, Scalar.eq c.weight 0 = false ∧ c.first ≠ c.second ∧ c.weight = x

/-- A potential that is zero has no arcs, and the size of any other one is scaled. -/
lemma nodeArcs_cases {u : K} (hu : u ∈ m.potentials) (i : ℕ) :
    Scalar.eq u 0 = true ∧ m.nodeArcs i u = .ok [] ∨
      m.IsCapacity (Scalar.abs u) ∧
        ∃ f, m.nodeArcs i u = (quantised m.scale (Scalar.abs u)).map f := by
  cases hzero : Scalar.eq u 0 with
  | true => exact .inl ⟨rfl, if_pos hzero⟩
  | false => exact .inr ⟨.inl ⟨u, hu, hzero, rfl⟩, _, if_neg (Bool.eq_false_iff.1 hzero)⟩

/-- A coupling that has no weight or joins a place to itself has no arcs, and the weight of any other one
is scaled. -/
lemma couplingArcs_cases {c : Coupling K} (hc : c ∈ m.couplings) :
    (Scalar.eq c.weight 0 = true ∨ c.first = c.second) ∧ m.couplingArcs c = .ok [] ∨
      m.IsCapacity c.weight ∧ ∃ f, m.couplingArcs c = (quantised m.scale c.weight).map f := by
  by_cases hnone : Scalar.eq c.weight 0 = true ∨ c.first = c.second
  · exact .inl ⟨hnone, if_pos hnone⟩
  · obtain ⟨hzero, hends⟩ := not_or.1 hnone
    exact .inr ⟨.inr ⟨c, hc, Bool.eq_false_iff.2 hzero, hends, rfl⟩, _, if_neg hnone⟩

/-- If every capacity can be scaled, there are arcs. -/
lemma exists_arcs (h : ∀ x, m.IsCapacity x → ∃ k, quantised m.scale x = .ok k) :
    ∃ arcs, m.arcs = .ok arcs := by
  have hnodes : ∀ p ∈ m.potentials.zipIdx, ∃ l, m.nodeArcs p.2 p.1 = .ok l := by
    rintro ⟨u, i⟩ hp
    rcases nodeArcs_cases (List.fst_mem_of_mem_zipIdx hp) i with ⟨-, hnil⟩ | ⟨hx, f, hf⟩
    · exact ⟨[], hnil⟩
    · obtain ⟨k, hk⟩ := h _ hx
      rw [hf, hk]
      exact ⟨f k, rfl⟩
  have hcouplings : ∀ c ∈ m.couplings, ∃ l, m.couplingArcs c = .ok l := by
    intro c hc
    rcases couplingArcs_cases hc with ⟨-, hnil⟩ | ⟨hx, f, hf⟩
    · exact ⟨[], hnil⟩
    · obtain ⟨k, hk⟩ := h _ hx
      rw [hf, hk]
      exact ⟨f k, rfl⟩
  obtain ⟨ls, hls⟩ := exists_mapM_eq_ok hnodes
  obtain ⟨ls', hls'⟩ := exists_mapM_eq_ok hcouplings
  rw [arcs, allNodeArcs, hls, hls']
  exact ⟨_, rfl⟩

/-- If no capacity can be scaled, there are no arcs as soon as there is a capacity. -/
lemma arcs_eq_error {e : Unroundable} (h : ∀ x, m.IsCapacity x → quantised m.scale x = .error e)
    (hsome : ∃ x, m.IsCapacity x) : m.arcs = .error e := by
  have hnodes : ∀ p ∈ m.potentials.zipIdx,
      Scalar.eq p.1 0 = true ∧ m.nodeArcs p.2 p.1 = .ok [] ∨ m.nodeArcs p.2 p.1 = .error e := by
    rintro ⟨u, i⟩ hp
    refine (nodeArcs_cases (List.fst_mem_of_mem_zipIdx hp) i).imp_right ?_
    rintro ⟨hx, f, hf⟩
    rw [hf, h _ hx]
    rfl
  have hcouplings : ∀ c ∈ m.couplings,
      (Scalar.eq c.weight 0 = true ∨ c.first = c.second) ∧ m.couplingArcs c = .ok [] ∨
        m.couplingArcs c = .error e := by
    intro c hc
    refine (couplingArcs_cases hc).imp_right ?_
    rintro ⟨hx, f, hf⟩
    rw [hf, h _ hx]
    rfl
  by_cases hfail : ∃ p ∈ m.potentials.zipIdx, m.nodeArcs p.2 p.1 = .error e
  · have herror := mapM_eq_error (fun p hp => (hnodes p hp).imp_left fun hnil => ⟨_, hnil.2⟩) hfail
    rw [arcs, allNodeArcs, herror]
    rfl
  · -- all potentials are zero, so that the capacity is a weight
    have hnil := fun p hp => (hnodes p hp).resolve_right fun herror => hfail ⟨p, hp, herror⟩
    obtain ⟨ls, hls⟩ := exists_mapM_eq_ok fun p hp => ⟨_, (hnil p hp).2⟩
    obtain ⟨x, ⟨u, hu, hne, -⟩ | ⟨c, hc, hne, hends, -⟩⟩ := hsome
    · obtain ⟨i, hi⟩ := List.mem_iff_getElem?.1 hu
      have hzero := (hnil (u, i) (List.mem_zipIdx_iff_getElem?.2 hi)).1
      rw [hne] at hzero
      cases hzero
    · have hcoupling := (hcouplings c hc).resolve_left fun hnone =>
        not_or.2 ⟨Bool.eq_false_iff.1 hne, hends⟩ hnone.1
      have herror := mapM_eq_error
        (fun c hc => (hcouplings c hc).imp_left fun hnil => ⟨_, hnil.2⟩) ⟨c, hc, hcoupling⟩
      rw [arcs, allNodeArcs, hls, herror]
      rfl

/-- The arcs of a node lead from the source to it or from it to the sink. -/
lemma within_of_nodeArcs {i : ℕ} {u : K} {l : List Arc} (hi : i < m.order)
    (h : m.nodeArcs i u = .ok l) : ∀ a ∈ l, m.Within a := by
  rw [nodeArcs] at h
  split at h
  · cases h
    exact List.forall_mem_nil _
  · obtain ⟨k, -, rfl⟩ := map_eq_ok_iff.1 h
    intro a ha
    have hends : a.tail = m.source ∧ a.head = i ∨ a.tail = i ∧ a.head = m.sink := by
      split at ha
      · obtain rfl := List.mem_singleton.1 ha
        exact .inl ⟨rfl, rfl⟩
      · obtain rfl := List.mem_singleton.1 ha
        exact .inr ⟨rfl, rfl⟩
    rw [source_eq, sink_eq] at hends
    rw [Within, sink_eq]
    omega

/-- The arcs of a coupling lead from the one of its places to the other. -/
lemma within_of_couplingArcs {c : Coupling K} {l : List Arc}
    (hc : (0 ≤ c.first ∧ c.first < m.order) ∧ 0 ≤ c.second ∧ c.second < m.order)
    (h : m.couplingArcs c = .ok l) : ∀ a ∈ l, m.Within a := by
  rw [couplingArcs] at h
  split at h
  · cases h
    exact List.forall_mem_nil _
  · obtain ⟨k, -, rfl⟩ := map_eq_ok_iff.1 h
    intro a ha
    rw [Within, sink_eq]
    rcases List.mem_pair.1 ha with rfl | rfl <;> dsimp only <;> omega

lemma within_of_arcs (hm : m.JoinsNodes) {arcs : List Arc} (h : m.arcs = .ok arcs) :
    ∀ a ∈ arcs, m.Within a := by
  obtain ⟨nodes, hnodes, h⟩ := bind_eq_ok_iff.1 h
  obtain ⟨couplings, hcouplings, h⟩ := bind_eq_ok_iff.1 h
  obtain ⟨rows, hrows, rfl⟩ := map_eq_ok_iff.1 hnodes
  obtain rfl := Except.ok.inj h
  have hnode : ∀ l ∈ rows, ∀ a ∈ l, m.Within a := by
    refine forall_mem_of_forall₂ (mapM_eq_ok_iff.1 hrows) ?_
    rintro ⟨u, i⟩ hp l hl
    exact within_of_nodeArcs (List.snd_lt_of_mem_zipIdx hp) hl
  have hcoupling : ∀ l ∈ couplings, ∀ a ∈ l, m.Within a :=
    forall_mem_of_forall₂ (mapM_eq_ok_iff.1 hcouplings) fun c hc _ hl =>
      within_of_couplingArcs (hm c hc) hl
  intro a ha
  rcases List.mem_append.1 ha with ha | ha
  · obtain ⟨l, hl, hal⟩ := List.mem_flatten.1 ha
    exact hnode l hl a hal
  · obtain ⟨l, hl, hal⟩ := List.mem_flatten.1 ha
    exact hcoupling l hl a hal

/-- Where there are arcs, there is a labeling of all nodes. -/
lemma exists_minCutLabeling_of_arcs (hm : m.JoinsNodes) (horder : m.order ≠ 0)
    (hcapacity : Scalar.eq m.maxCapacity 0 = false) (hscale : Scalar.eq m.scale 0 = false)
    {arcs : List Arc} (harcs : m.arcs = .ok arcs) :
    ∃ y, m.minCutLabeling = .ok y ∧ y.length = m.order := by
  have hstray : m.strayPlaces arcs = [] := strayPlaces_eq_nil (within_of_arcs hm harcs)
  refine ⟨(m.network arcs).sourceSide.take m.order, ?_, ?_⟩
  · rw [minCutLabeling, if_neg horder, if_neg (Bool.eq_false_iff.1 hcapacity), harcs]
    refine bind_eq_ok_iff.2 ⟨arcs, rfl, bind_eq_ok_iff.2 ⟨_, labelingOf_eq hstray, ?_⟩⟩
    rw [if_neg (Bool.eq_false_iff.1 hscale)]
  · rw [List.length_take, Network.length_sourceSide]
    omega

lemma minCutLabeling_eq_error (horder : m.order ≠ 0)
    (hcapacity : Scalar.eq m.maxCapacity 0 = false) {e : Unroundable} (harcs : m.arcs = .error e) :
    m.minCutLabeling = .error (.capacity e) := by
  rw [minCutLabeling, if_neg horder, if_neg (Bool.eq_false_iff.1 hcapacity), harcs]
  rfl

end Scaled

/-! ## The largest capacity -/

section Float

variable {m : PottsModel Float} {cap p s : ℚ} {x : Float}

/-- All potentials and weights are numbers. -/
structure IsFinite (m : PottsModel Float) : Prop where
  potential : ∀ u ∈ m.potentials, ∃ p, Binary64.value? u = some p
  weight : ∀ c ∈ m.couplings, ∃ p, Binary64.value? c.weight = some p

/-- No potential has a size above a bound, and no weight is above it. -/
structure SizesUpTo (m : PottsModel Float) (b : ℚ) : Prop where
  potential : ∀ u ∈ m.potentials, ∃ p, Binary64.value? u = some p ∧ |p| ≤ b
  weight : ∀ c ∈ m.couplings, ∃ p, Binary64.value? c.weight = some p ∧ p ≤ b

lemma IsFinite.weight_nonneg (h : m.IsFinite) :
    ∀ c ∈ m.couplings, ∃ p, Binary64.value? c.weight = some p ∧ 0 ≤ p := by
  intro c hc
  obtain ⟨p, hp⟩ := h.weight c hc
  refine ⟨p, hp, ?_⟩
  by_contra hneg
  have hnumbers : ∀ w ∈ m.couplings.map (·.weight), Scalar.isNaN w = false := by
    refine List.forall_mem_map.2 fun d hd => ?_
    obtain ⟨q, hq⟩ := h.weight d hd
    exact Binary64.isNaN_of_value hq
  refine m.not_hasNegative ?_
  rw [HasNegative, Scalar.any_minimum?_lt_iff hnumbers]
  exact ⟨c.weight, List.mem_map_of_mem hc,
    (Binary64.lt_iff_of_value hp Binary64.value?_zero).2 (not_le.1 hneg)⟩

/-- The largest capacity is the least bound of all sizes. -/
lemma IsFinite.exists_maxCapacity (h : m.IsFinite) :
    ∃ cap, Binary64.value? m.maxCapacity = some cap ∧ 0 ≤ cap ∧
      ∀ b, 0 ≤ b → (cap ≤ b ↔ m.SizesUpTo b) := by
  have hpotentials : ∀ x ∈ m.potentials.map Scalar.abs,
      ∃ q, Binary64.value? x = some q ∧ 0 ≤ q := by
    refine List.forall_mem_map.2 fun u hu => ?_
    obtain ⟨p, hp⟩ := h.potential u hu
    exact ⟨|p|, Binary64.value?_abs hp, abs_nonneg p⟩
  have hweights : ∀ x ∈ m.couplings.map (·.weight), ∃ q, Binary64.value? x = some q ∧ 0 ≤ q :=
    List.forall_mem_map.2 h.weight_nonneg
  obtain ⟨p, hp, hpos, hple⟩ := Binary64.exists_value_maximum hpotentials
  obtain ⟨q, hq, -, hqle⟩ := Binary64.exists_value_maximum hweights
  refine ⟨max p q, Binary64.value?_larger hp hq, hpos.trans (le_max_left p q), fun b hb => ?_⟩
  rw [max_le_iff, hple b hb, hqle b hb, List.forall_mem_map, List.forall_mem_map]
  have hsize : ∀ u ∈ m.potentials, (∃ q, Binary64.value? (Scalar.abs u) = some q ∧ q ≤ b) ↔
      ∃ q, Binary64.value? u = some q ∧ |q| ≤ b := by
    intro u hu
    obtain ⟨r, hr⟩ := h.potential u hu
    simp [hr, Binary64.value?_abs hr]
  rw [forall₂_congr hsize]
  exact ⟨fun hall => ⟨hall.1, hall.2⟩, fun hall => ⟨hall.1, hall.2⟩⟩

/-- A capacity that is scaled is a positive number, and not above the largest one. -/
lemma IsFinite.exists_value_of_isCapacity (h : m.IsFinite) (hcap : m.SizesUpTo cap)
    (hx : m.IsCapacity x) : ∃ p, Binary64.value? x = some p ∧ 0 < p ∧ p ≤ cap := by
  obtain ⟨u, hu, hne, rfl⟩ | ⟨c, hc, hne, -, rfl⟩ := hx
  · obtain ⟨p, hp, hle⟩ := hcap.potential u hu
    exact ⟨|p|, Binary64.value?_abs hp, abs_pos.2 ((Binary64.eq_zero_eq_false_iff hp).1 hne), hle⟩
  · obtain ⟨p, hp, hnonneg⟩ := h.weight_nonneg c hc
    obtain ⟨p', hp', hle⟩ := hcap.weight c hc
    obtain rfl : p = p' := Option.some.inj (hp.symm.trans hp')
    have hpos : 0 < p :=
      lt_of_le_of_ne hnonneg ((Binary64.eq_zero_eq_false_iff hp).1 hne).symm
    exact ⟨p, hp, hpos, hle⟩

/-! ## The factor -/

lemma isRounded_scale (hcap : Binary64.value? m.maxCapacity = some cap) (hpos : 0 < cap) :
    Binary64.IsRounded (2 ^ (40 : ℤ) / cap) m.scale := by
  have hresolution : Binary64.value? (Scalar.ofNat resolution) = some (2 ^ (40 : ℤ)) := by
    decide +kernel
  exact Binary64.isRounded_div_of_value hresolution (by positivity) hcap hpos

/-- The factor is infinite if the largest capacity is too small. -/
lemma unpack_scale_eq_infinity (hcap : Binary64.value? m.maxCapacity = some cap) (hpos : 0 < cap)
    (hle : cap ≤ 2 ^ (-984 : ℤ)) : m.scale.toModel.unpack = .infinity .positive := by
  refine (isRounded_scale hcap hpos).unpack_eq_infinity ?_
  rw [le_div_iff₀ hpos]
  calc (2 : ℚ) ^ (1024 : ℤ) * cap ≤ 2 ^ (1024 : ℤ) * 2 ^ (-984 : ℤ) := by gcongr
    _ = 2 ^ (40 : ℤ) := by
        rw [← zpow_add₀ two_ne_zero]
        rfl

/-- Otherwise the factor is no infinity, since the largest capacity is above 2^-984 by a unit at least. -/
lemma resolution_div_lt (hcap : Binary64.value? m.maxCapacity = some cap)
    (hlt : 2 ^ (-984 : ℤ) < cap) : 2 ^ (40 : ℤ) / cap < Binary64.overflowThreshold := by
  have hpos : 0 < cap := lt_trans (by positivity) hlt
  have hcanonical : Binary64.IsCanonical (2 ^ 52) (-1036) :=
    ⟨by norm_num, by norm_num, by norm_num, .inl le_rfl⟩
  have hunit : ((2 : ℚ) ^ 52 + 1) * 2 ^ (-1036 : ℤ) ≤ cap := by
    have hbound : ((2 ^ 52 : ℕ) : ℚ) * 2 ^ (-1036 : ℤ) = 2 ^ (-984 : ℤ) := by
      rw [Nat.cast_pow, Nat.cast_ofNat, ← zpow_natCast, ← zpow_add₀ two_ne_zero]
      rfl
    exact_mod_cast Binary64.add_one_mul_le_of_lt hcanonical hcap (hbound.trans_lt hlt)
  have hsplit : (2 : ℚ) ^ (970 : ℤ) * 2 ^ (-1036 : ℤ) = 2 ^ (-66 : ℤ) := by
    rw [← zpow_add₀ two_ne_zero]
    rfl
  rw [div_lt_iff₀ hpos, Binary64.overflowThreshold_eq]
  calc (2 : ℚ) ^ (40 : ℤ) < (2 ^ 54 - 1) * (2 ^ 52 + 1) * 2 ^ (-66 : ℤ) := by norm_num
    _ = (2 ^ 54 - 1) * 2 ^ (970 : ℤ) * ((2 ^ 52 + 1) * 2 ^ (-1036 : ℤ)) := by
        rw [← hsplit]
        ring
    _ ≤ (2 ^ 54 - 1) * 2 ^ (970 : ℤ) * cap := by
        gcongr

/-- A factor that is no infinity is a positive number, and scales the largest capacity to 2^41 at most. -/
lemma exists_value_scale (hcap : Binary64.value? m.maxCapacity = some cap)
    (hlt : 2 ^ (-984 : ℤ) < cap) :
    ∃ s, Binary64.value? m.scale = some s ∧ 0 < s ∧ cap * s ≤ 2 ^ (41 : ℤ) := by
  have hpos : 0 < cap := lt_trans (by positivity) hlt
  have hlow : (2 : ℚ) ^ (-1022 : ℤ) ≤ 2 ^ (40 : ℤ) / cap := by
    rw [le_div_iff₀ hpos]
    calc (2 : ℚ) ^ (-1022 : ℤ) * cap ≤ 2 ^ (-1022 : ℤ) * 2 ^ (1024 : ℤ) := by
          gcongr
          exact (Binary64.lt_of_value hcap).le
      _ = 2 ^ (2 : ℤ) := by
          rw [← zpow_add₀ two_ne_zero]
          rfl
      _ ≤ 2 ^ (40 : ℤ) := by norm_num
  obtain ⟨s, hs, hnear⟩ :=
    (isRounded_scale hcap hpos).exists_value_of_le hlow (resolution_div_lt hcap hlt)
  have hquotient : (0 : ℚ) < 2 ^ (40 : ℤ) / cap := by positivity
  have hproduct : cap * (2 ^ (40 : ℤ) / cap) = 2 ^ (40 : ℤ) := mul_div_cancel₀ _ hpos.ne'
  obtain ⟨hge, hle⟩ := abs_le.1 hnear
  refine ⟨s, hs, by linarith, ?_⟩
  have htwice : s ≤ 2 * (2 ^ (40 : ℤ) / cap) := by linarith
  calc cap * s ≤ cap * (2 * (2 ^ (40 : ℤ) / cap)) := by gcongr
    _ = 2 * (cap * (2 ^ (40 : ℤ) / cap)) := by ring
    _ = 2 ^ (41 : ℤ) := by
        rw [hproduct]
        norm_num

/-! ## Scaled capacities -/

/-- A capacity that is not above the largest one is scaled to a number. -/
lemma exists_quantised (hs : Binary64.value? m.scale = some s) (hspos : 0 < s)
    (hle : cap * s ≤ 2 ^ (41 : ℤ)) (hx : Binary64.value? x = some p) (hp : 0 < p)
    (hpcap : p ≤ cap) : ∃ k, quantised m.scale x = .ok k := by
  have hrounded := Binary64.isRounded_mul_of_value hx hp hs hspos
  have hlt : p * s < Binary64.overflowThreshold := by
    calc p * s ≤ cap * s := by gcongr
      _ ≤ 2 ^ (41 : ℤ) := hle
      _ < Binary64.overflowThreshold := Binary64.two_zpow_lt_overflowThreshold (by norm_num)
  obtain ⟨f, hf⟩ := hrounded.exists_isExponent
  obtain ⟨r, hr, -⟩ := hrounded.exists_value hf hlt
  obtain ⟨n, hn⟩ := Binary64.exists_nearest_of_value hr
  refine ⟨Nat.max 1 n.toNat, ?_⟩
  show (Binary64.nearest (x * m.scale)).map _ = _
  rw [hn]
  rfl

/-- No capacity is scaled by an infinite factor. -/
lemma quantised_eq_error (hs : m.scale.toModel.unpack = .infinity .positive)
    (hx : Binary64.value? x = some p) (hp : 0 < p) :
    quantised m.scale x = .error .infinite := by
  show (Binary64.nearest (x * m.scale)).map _ = _
  rw [Binary64.nearest_of_infinity (Binary64.unpack_mul_infinity hx hp hs)]
  rfl

/-- The factor is not zero. -/
lemma eq_scale_zero_eq_false (hcap : Binary64.value? m.maxCapacity = some cap) (hpos : 0 < cap) :
    Scalar.eq m.scale 0 = false := by
  rcases le_or_gt cap (2 ^ (-984 : ℤ)) with hle | hlt
  · rw [← Bool.not_eq_true, Binary64.eq_iff, unpack_scale_eq_infinity hcap hpos hle]
    rintro ⟨-, -, hrank⟩
    exact (Binary64.rank_mem_Ioo Binary64.value?_zero).2.ne' hrank
  · obtain ⟨s, hs, hspos, -⟩ := exists_value_scale hcap hlt
    exact (Binary64.eq_zero_eq_false_iff hs).2 hspos.ne'

/-! ## The labeling -/

/-- Some capacity is to be scaled, and none is above 2^-984. -/
def Overflows (m : PottsModel Float) : Prop :=
  (∃ x, m.IsCapacity x) ∧ m.SizesUpTo (2 ^ (-984 : ℤ))

lemma order_ne_zero_of_isCapacity (hm : m.JoinsNodes) (hx : m.IsCapacity x) : m.order ≠ 0 := by
  intro horder
  obtain ⟨u, hu, -⟩ | ⟨c, hc, -⟩ := hx
  · rw [List.length_eq_zero_iff.1 horder] at hu
    cases hu
  · obtain ⟨⟨hfirst, hlt⟩, -⟩ := hm c hc
    omega

/-- If some capacity is to be scaled and none is above 2^-984, a scaled capacity is infinite. -/
lemma minCutLabeling_of_overflows (hfinite : m.IsFinite) (hjoins : m.JoinsNodes)
    (h : m.Overflows) : m.minCutLabeling = .error (.capacity .infinite) := by
  obtain ⟨⟨x, hx⟩, hsmall⟩ := h
  obtain ⟨cap, hcap, hnonneg, hle⟩ := hfinite.exists_maxCapacity
  have hvalue := fun y => hfinite.exists_value_of_isCapacity (x := y) ((hle cap hnonneg).1 le_rfl)
  have hpos : 0 < cap := by
    obtain ⟨p, -, hp, hpcap⟩ := hvalue x hx
    exact hp.trans_le hpcap
  have hscale := unpack_scale_eq_infinity hcap hpos ((hle _ (by positivity)).2 hsmall)
  have hcapacity : Scalar.eq m.maxCapacity 0 = false :=
    (Binary64.eq_zero_eq_false_iff hcap).2 hpos.ne'
  refine minCutLabeling_eq_error (order_ne_zero_of_isCapacity hjoins hx) hcapacity
    (arcs_eq_error (fun y hy => ?_) ⟨x, hx⟩)
  obtain ⟨p, hy, hp, -⟩ := hvalue y hy
  exact quantised_eq_error hscale hy hp

/-- If nothing is to be scaled, or some capacity is above 2^-984, there is a label for every node. -/
lemma exists_minCutLabeling_of_not_overflows (hfinite : m.IsFinite) (hjoins : m.JoinsNodes)
    (h : ¬ m.Overflows) : ∃ y, m.minCutLabeling = .ok y ∧ y.length = m.order := by
  by_cases horder : m.order = 0
  · exact ⟨[], if_pos horder, horder.symm⟩
  obtain ⟨cap, hcap, hnonneg, hle⟩ := hfinite.exists_maxCapacity
  rcases hnonneg.eq_or_lt with rfl | hpos
  · have hcapacity : Scalar.eq m.maxCapacity 0 = true :=
      (Binary64.eq_iff_of_value hcap Binary64.value?_zero).2 rfl
    exact ⟨List.replicate m.order true, (if_neg horder).trans (if_pos hcapacity),
      List.length_replicate⟩
  have hcapacity : Scalar.eq m.maxCapacity 0 = false :=
    (Binary64.eq_zero_eq_false_iff hcap).2 hpos.ne'
  have harcs : ∃ arcs, m.arcs = .ok arcs := by
    refine exists_arcs fun x hx => ?_
    have hlt : 2 ^ (-984 : ℤ) < cap := by
      by_contra hge
      exact h ⟨⟨x, hx⟩, (hle _ (by positivity)).1 (not_lt.1 hge)⟩
    obtain ⟨s, hs, hspos, hscaled⟩ := exists_value_scale hcap hlt
    obtain ⟨p, hp, hppos, hpcap⟩ :=
      hfinite.exists_value_of_isCapacity ((hle cap hnonneg).1 le_rfl) hx
    exact exists_quantised hs hspos hscaled hp hppos hpcap
  obtain ⟨arcs, harcs⟩ := harcs
  exact exists_minCutLabeling_of_arcs hjoins horder hcapacity
    (eq_scale_zero_eq_false hcap hpos) harcs

/-- On numbers the minimum cut finds a label for every node, unless some capacity is to be scaled and
none is above 2^-984.  In that case it fails, because a scaled capacity is infinite. -/
theorem minCutLabeling_eq_ok_iff_not_overflows (m : PottsModel Float) (hfinite : m.IsFinite)
    (hjoins : m.JoinsNodes) :
    ((∃ y, m.minCutLabeling = .ok y ∧ y.length = m.order) ↔ ¬ m.Overflows) ∧
      (m.Overflows → m.minCutLabeling = .error (.capacity .infinite)) := by
  have herror : m.Overflows → m.minCutLabeling = .error (.capacity .infinite) :=
    minCutLabeling_of_overflows hfinite hjoins
  refine ⟨⟨?_, exists_minCutLabeling_of_not_overflows hfinite hjoins⟩, herror⟩
  rintro ⟨y, hy, -⟩ hoverflows
  rw [herror hoverflows] at hy
  cases hy

/-- The smallest potential there is beside the largest weight. -/
def widestModel : PottsModel Float where
  potentials := [5e-324, -1]
  couplings := [⟨0, 1, 1.7976931348623157e308⟩]
  not_hasNegative := by decide +kernel

theorem exists_minCutLabeling_widestModel :
    widestModel.IsFinite ∧ widestModel.JoinsNodes ∧
      ∃ y, widestModel.minCutLabeling = .ok y ∧ y.length = 2 := by
  have hleast : Binary64.value? 5e-324 = some (2 ^ (-1074 : ℤ)) := by decide +kernel
  have hone : Binary64.value? (-1) = some (-1) := by decide +kernel
  have hlargest : Binary64.value? 1.7976931348623157e308 =
      some ((2 ^ 53 - 1) * 2 ^ (971 : ℤ)) := by decide +kernel
  have hfinite : widestModel.IsFinite := by
    constructor <;> simp [widestModel, hleast, hone, hlargest]
  have hjoins : widestModel.JoinsNodes := by decide
  refine ⟨hfinite, hjoins, (minCutLabeling_eq_ok_iff_not_overflows _ hfinite hjoins).1.2 ?_⟩
  rintro ⟨-, hsmall⟩
  obtain ⟨p, hp, hle⟩ := hsmall.potential (-1) (by simp [widestModel])
  obtain rfl := Option.some.inj (hone.symm.trans hp)
  rw [abs_neg, abs_one] at hle
  exact hle.not_gt (zpow_lt_one_of_neg₀ one_lt_two (by norm_num))

/-- A node with the smallest potential there is. -/
def leastModel : PottsModel Float where
  potentials := [5e-324]
  couplings := []
  not_hasNegative := by decide +kernel

/-- The minimum cut fails on the smallest potential, which the exhaustive search does not. -/
theorem minCutLabeling_leastModel :
    leastModel.IsFinite ∧ leastModel.JoinsNodes ∧
      leastModel.minCutLabeling = .error (.capacity .infinite) ∧
      leastModel.exhaustiveLabeling = .ok [true] := by
  have hleast : Binary64.value? 5e-324 = some (2 ^ (-1074 : ℤ)) := by decide +kernel
  refine ⟨⟨by simp [leastModel, hleast], by simp [leastModel]⟩, by decide, ?_, ?_⟩
  · decide +kernel
  · decide +kernel

end Float

end PottsModel

end PottsOracle
