import PottsOracle.Proofs.Decimal.ToFloat
import PottsOracle.Proofs.Text.Digits

/-!
# The digits that are found read back

Of the neighbours of a float on the grid of seventeen digits the nearer one reads back.  So the
search for a shortest spelling always ends with digits that read back, and never takes the integer
that is left for a float without any.
-/

namespace PottsOracle.Decimal

open Float.Model Float.Model.UnpackedFloat Binary64

/-! ## The place of the first digit -/

theorem pow_length_digits_bounds {n : ℕ} (hn : 0 < n) :
    (10 : ℚ) ^ ((Text.digits n).length - 1 : ℤ) ≤ n ∧ (n : ℚ) < 10 ^ (Text.digits n).length := by
  obtain ⟨k, hk⟩ := Nat.exists_eq_succ_of_ne_zero
    (List.length_pos_iff.2 (Text.digits_ne_nil n)).ne'
  rw [hk]
  have hhigh : n < 10 ^ k.succ := (Text.length_digits_le_iff k.succ_pos).1 hk.le
  have hlow : 10 ^ k ≤ n := by
    rcases Nat.eq_zero_or_pos k with rfl | hpos
    · simpa using Nat.one_le_iff_ne_zero.2 hn.ne'
    · by_contra hlt
      have := (Text.length_digits_le_iff hpos).2 (not_le.1 hlt)
      omega
  constructor
  · rw [Nat.cast_succ, add_sub_cancel_right, zpow_natCast]
    exact_mod_cast hlow
  · exact_mod_cast hhigh

/-- A power of ten and a quotient are compared with integers only. -/
theorem pow_le_quotient_iff (n : ℕ) {d : ℕ} (hd : 0 < d) (p : ℤ) :
    (if 0 ≤ p then d * 10 ^ p.toNat ≤ n else d ≤ n * 10 ^ (-p).toNat) ↔
      (10 : ℚ) ^ p ≤ n / d := by
  have hd' : (0 : ℚ) < d := by exact_mod_cast hd
  rw [le_div_iff₀ hd']
  split_ifs with hnonneg
  · obtain ⟨k, hk⟩ := Int.eq_ofNat_of_zero_le hnonneg
    rw [hk, Int.toNat_natCast, zpow_natCast, mul_comm]
    exact_mod_cast Iff.rfl
  · obtain ⟨k, hk⟩ := Int.eq_ofNat_of_zero_le (show 0 ≤ -p by omega)
    rw [hk, show p = -k by omega, Int.toNat_natCast, zpow_neg, zpow_natCast,
      inv_mul_le_iff₀ (by positivity), mul_comm]
    exact_mod_cast Iff.rfl

/-- The first digit of a positive number stands where `magnitude` says. -/
theorem magnitude_bounds {n d : ℕ} (hn : 0 < n) (hd : 0 < d) :
    (10 : ℚ) ^ (magnitude n d - 1) ≤ n / d ∧ (n : ℚ) / d < 10 ^ magnitude n d := by
  have hd' : (0 : ℚ) < d := by exact_mod_cast hd
  obtain ⟨hn_low, hn_high⟩ := pow_length_digits_bounds hn
  obtain ⟨hd_low, hd_high⟩ := pow_length_digits_bounds hd
  set p : ℤ := (Text.digits n).length - (Text.digits d).length with hp
  have hlow : (10 : ℚ) ^ (p - 1) ≤ n / d := by
    rw [le_div_iff₀ hd']
    calc (10 : ℚ) ^ (p - 1) * d ≤ 10 ^ (p - 1) * 10 ^ (Text.digits d).length := by gcongr
      _ = 10 ^ ((Text.digits n).length - 1 : ℤ) := by
        rw [← zpow_natCast, ← zpow_add₀ (by norm_num)]
        congr 1
        omega
      _ ≤ n := hn_low
  have hhigh : (n : ℚ) / d < 10 ^ (p + 1) := by
    rw [div_lt_iff₀ hd']
    calc (n : ℚ) < 10 ^ (Text.digits n).length := hn_high
      _ = 10 ^ (p + 1) * 10 ^ ((Text.digits d).length - 1 : ℤ) := by
        rw [← zpow_natCast, ← zpow_add₀ (by norm_num)]
        congr 1
        omega
      _ ≤ 10 ^ (p + 1) * d := by gcongr
  simp only [magnitude, Nat.pow_eq]
  rw [← hp]
  simp only [pow_le_quotient_iff n hd]
  split_ifs with h
  · exact ⟨by simpa using h, hhigh⟩
  · exact ⟨hlow, not_le.1 h⟩

/-! ## Neighbours -/

/-- The integer part of a quotient and the integer behind it, the nearer one first. -/
def aroundQuotient (n d : ℕ) : List ℕ :=
  if 2 * (n % d) < d ∨ (2 * (n % d) = d ∧ n / d % 2 = 0) then [n / d, n / d + 1]
  else [n / d + 1, n / d]

theorem aroundQuotient_spec (n : ℕ) {d : ℕ} (hd : 0 < d) :
    ∃ near far : ℕ, aroundQuotient n d = [near, far] ∧ |(near : ℚ) - n / d| ≤ 1 / 2 ∧
      (near : ℚ) ≤ n / d + 1 ∧ (far : ℚ) ≤ n / d + 1 := by
  have hd' : (0 : ℚ) < d := by exact_mod_cast hd
  have hsum : (d : ℚ) * (n / d : ℕ) + (n % d : ℕ) = n := by exact_mod_cast Nat.div_add_mod n d
  have hdiv : (n : ℚ) / d = (n / d : ℕ) + (n % d : ℕ) / d := by
    field_simp
    linarith
  have hlt : ((n % d : ℕ) : ℚ) / d < 1 := (div_lt_one hd').2 (by exact_mod_cast Nat.mod_lt n hd)
  have hnonneg : (0 : ℚ) ≤ (n % d : ℕ) / d := by positivity
  rw [hdiv, aroundQuotient]
  split_ifs with hnear
  · have hhalf : ((n % d : ℕ) : ℚ) / d ≤ 1 / 2 := by
      have hle : (2 : ℚ) * (n % d : ℕ) ≤ d := by exact_mod_cast (show 2 * (n % d) ≤ d by omega)
      rw [div_le_div_iff₀ hd' (by norm_num)]
      linarith
    refine ⟨_, _, rfl, ?_, by linarith, by push_cast; linarith⟩
    rw [abs_le]
    constructor <;> linarith
  · have hhalf : 1 / 2 ≤ ((n % d : ℕ) : ℚ) / d := by
      have hle : (d : ℚ) ≤ 2 * (n % d : ℕ) := by exact_mod_cast (show d ≤ 2 * (n % d) by omega)
      rw [div_le_div_iff₀ (by norm_num) hd']
      linarith
    refine ⟨_, _, rfl, ?_, by push_cast; linarith, by linarith⟩
    rw [abs_le]
    push_cast
    constructor <;> linarith

/-- The neighbours of a number on a grid are around a quotient. -/
theorem neighbours_eq (n : ℕ) {d : ℕ} (hd : 0 < d) (unit : ℤ) :
    ∃ n' d', 0 < d' ∧ neighbours n d unit = aroundQuotient n' d' ∧
      (n' : ℚ) / d' = n / d / 10 ^ unit := by
  have hd' : (0 : ℚ) < d := by exact_mod_cast hd
  simp only [neighbours, Nat.pow_eq]
  by_cases hnonneg : 0 ≤ unit
  · obtain ⟨k, rfl⟩ := Int.eq_ofNat_of_zero_le hnonneg
    refine ⟨n, d * 10 ^ k, by positivity, ?_, ?_⟩
    · simp only [if_pos hnonneg, Int.toNat_natCast]
      rfl
    · rw [zpow_natCast, div_div]
      push_cast
      rfl
  · obtain ⟨k, hk⟩ := Int.eq_ofNat_of_zero_le (show 0 ≤ -unit by omega)
    refine ⟨n * 10 ^ k, d, hd, ?_, ?_⟩
    · simp only [if_neg hnonneg, hk, Int.toNat_natCast]
      rfl
    · rw [show unit = -k by omega, zpow_neg, zpow_natCast, div_inv_eq_mul, div_mul_eq_mul_div]
      push_cast
      rfl

/-- The first neighbour of a number on a grid is at most half a unit away, and both are at most a
unit above it. -/
theorem neighbours_spec (n : ℕ) {d : ℕ} (hd : 0 < d) (unit : ℤ) :
    ∃ near far : ℕ, neighbours n d unit = [near, far] ∧
      |(near : ℚ) - n / d / 10 ^ unit| ≤ 1 / 2 ∧
      ∀ m ∈ neighbours n d unit, (m : ℚ) ≤ n / d / 10 ^ unit + 1 := by
  obtain ⟨n', d', hd', heq, hvalue⟩ := neighbours_eq n hd unit
  obtain ⟨near, far, hlist, hnear, hle, hle'⟩ := aroundQuotient_spec n' hd'
  rw [heq, hlist, ← hvalue]
  refine ⟨near, far, rfl, hnear, ?_⟩
  simpa using ⟨hle, hle'⟩

/-! ## Finite floats -/

theorem fraction_spec {m : ℕ} (hm : 0 < m) (e : ℤ) :
    0 < (fraction m e).1 ∧ 0 < (fraction m e).2 ∧
      ((fraction m e).1 : ℚ) / (fraction m e).2 = m * 2 ^ e := by
  simp only [fraction, Nat.pow_eq]
  split_ifs with hnonneg
  · obtain ⟨k, rfl⟩ := Int.eq_ofNat_of_zero_le hnonneg
    refine ⟨by positivity, Nat.one_pos, ?_⟩
    simp [zpow_natCast]
  · obtain ⟨k, hk⟩ := Int.eq_ofNat_of_zero_le (show 0 ≤ -e by omega)
    obtain rfl : e = -k := by omega
    refine ⟨hm, by positivity, ?_⟩
    rw [neg_neg, Int.toNat_natCast, zpow_neg, zpow_natCast, div_eq_mul_inv]
    push_cast
    rfl

section

variable {x y : Float} {m : ℕ} {e : ℤ} {hm : 0 < m}

theorem eq_of_beq (hx : x.toModel.unpack = .finite .positive m e hm) (h : (y == x) = true) :
    y = x := by
  have hbeq : y.toModel.unpack.beq x.toModel.unpack = true := h
  rw [beq_iff_ne_notANumber_and_eq, hx] at hbeq
  have hy : y.toModel.unpack = .finite .positive m e hm := by simpa using hbeq.2.2
  rw [eq_pack_of_unpack hx, eq_pack_of_unpack hy]

theorem beq_self (hx : x.toModel.unpack = .finite .positive m e hm) : (x == x) = true := by
  change x.toModel.unpack.beq x.toModel.unpack = true
  rw [beq_iff_ne_notANumber_and_eq, hx]
  simp

theorem toFloat_zero (e : ℤ) : toFloat 0 e = Float.ofScientific 0 false 0 := by simp [toFloat]

theorem two_pow_lt_ten_pow : 2 ^ 1074 < 10 ^ 324 ∧ 2 ^ 53 * 2 ^ 971 < 10 ^ 309 := by
  decide +kernel

/-- The first digit of a float stands in one of finitely many places. -/
theorem magnitude_fraction_bounds (h : IsCanonical m e) (he : e ≤ 971) :
    -323 ≤ magnitude (fraction m e).1 (fraction m e).2 ∧
      magnitude (fraction m e).1 (fraction m e).2 ≤ 309 := by
  obtain ⟨hn, hd, hvalue⟩ := fraction_spec h.pos e
  have hm : (1 : ℚ) ≤ m := by exact_mod_cast h.pos
  have hm' : (m : ℚ) < 2 ^ 53 := by exact_mod_cast h.lt
  obtain ⟨hlow, hhigh⟩ := magnitude_bounds hn hd
  rw [hvalue] at hlow hhigh
  generalize magnitude (fraction m e).1 (fraction m e).2 = place at hlow hhigh ⊢
  constructor
  · have hlt : (10 : ℚ) ^ (-324 : ℤ) < 10 ^ place := by
      calc (10 : ℚ) ^ (-324 : ℤ) < 2 ^ (-1074 : ℤ) := by
            rw [zpow_neg, zpow_neg]
            refine inv_strictAnti₀ (by positivity) ?_
            exact_mod_cast two_pow_lt_ten_pow.1
        _ ≤ 2 ^ e := zpow_le_zpow_right₀ (by norm_num) h.min_le
        _ ≤ m * 2 ^ e := le_mul_of_one_le_left (by positivity) hm
        _ < 10 ^ place := hhigh
    rw [zpow_lt_zpow_iff_right₀ (by norm_num)] at hlt
    omega
  · have hlt : (10 : ℚ) ^ (place - 1) < 10 ^ (309 : ℤ) := by
      calc (10 : ℚ) ^ (place - 1) ≤ m * 2 ^ e := hlow
        _ < 2 ^ 53 * 2 ^ e := by gcongr
        _ ≤ 2 ^ 53 * 2 ^ (971 : ℤ) := by gcongr; norm_num
        _ < 10 ^ (309 : ℤ) := by exact_mod_cast two_pow_lt_ten_pow.2
    rw [zpow_lt_zpow_iff_right₀ (by norm_num)] at hlt
    omega

/-- Seventeen digits are enough: what is at most half a unit away from a float reads back. -/
theorem toFloat_eq_of_near (hx : x.toModel.unpack = .finite .positive m e hm) {near : ℕ} {unit : ℤ}
    (hmin : -340 ≤ unit) (hmax : unit ≤ 308) {q : ℚ} (hq : m * 2 ^ e = q * 10 ^ unit)
    (hlow : 10 ^ 16 ≤ q) (hhigh : q < 10 ^ 17) (hnear : |near - q| ≤ 1 / 2) :
    toFloat near unit = x := by
  obtain ⟨hcanonical, -⟩ := isCanonical_of_unpack hx
  have hpow : (0 : ℚ) < 10 ^ unit := by positivity
  obtain ⟨hlower, hupper⟩ := abs_le.1 hnear
  have hpos : 0 < near := by
    have : (0 : ℚ) < near := by linarith
    exact_mod_cast this
  have hlt : near < 10 ^ 40 := by
    have : (near : ℚ) < 10 ^ 40 := by
      calc (near : ℚ) < 10 ^ 17 + 1 := by linarith
        _ ≤ 10 ^ 40 := by norm_num
    exact_mod_cast this
  have herror : |near * (10 : ℚ) ^ unit - m * 2 ^ e| < m * 2 ^ e / 2 ^ 54 := by
    rw [hq, ← sub_mul, abs_mul, abs_of_pos hpow, mul_div_right_comm]
    refine mul_lt_mul_of_pos_right (hnear.trans_lt ?_) hpow
    rw [div_lt_div_iff₀ (by norm_num) (by norm_num)]
    norm_num at hlow ⊢
    linarith
  rw [eq_pack_of_unpack hx]
  exact (isRounded_toFloat hpos hlt (by omega) (by omega)).eq_of_near hcanonical herror

/-- A number in units of the grid that has so many digits before the point. -/
theorem scaled_bounds {n d : ℕ} (hn : 0 < n) (hd : 0 < d) (count : ℕ) :
    (10 : ℚ) ^ (count - 1 : ℤ) ≤ n / d / 10 ^ (magnitude n d - count) ∧
      (n : ℚ) / d / 10 ^ (magnitude n d - count) < 10 ^ count := by
  obtain ⟨hlow, hhigh⟩ := magnitude_bounds hn hd
  rw [le_div_iff₀ (by positivity), div_lt_iff₀ (by positivity), ← zpow_natCast,
    ← zpow_add₀ (by norm_num), ← zpow_add₀ (by norm_num)]
  exact ⟨le_of_eq_of_le (by congr 1; ring) hlow, hhigh.trans_eq (by congr 1; ring)⟩

/-- What is found on a grid reads back and has no more digits than the grid. -/
theorem find?_neighbours_spec {n d : ℕ} (hn : 0 < n) (hd : 0 < d) {count s : ℕ}
    (h : (neighbours n d (magnitude n d - count)).find?
      (fun s => toFloat s (magnitude n d - count) == x) = some s)
    (hx : x.toModel.unpack = .finite .positive m e hm) :
    toFloat s (magnitude n d - count) = x ∧ 0 < s ∧ s ≤ 10 ^ count := by
  have hread : toFloat s (magnitude n d - count) = x :=
    eq_of_beq hx (by simpa using List.find?_some h)
  obtain ⟨-, -, -, -, hmem⟩ := neighbours_spec n hd (magnitude n d - count)
  refine ⟨hread, Nat.pos_of_ne_zero ?_, ?_⟩
  · rintro rfl
    rw [← hread, toFloat_zero] at hx
    cases hx
  · have hlt : (s : ℚ) < 10 ^ count + 1 :=
      (hmem s (List.mem_of_find?_eq_some h)).trans_lt (by linarith [(scaled_bounds hn hd count).2])
    exact Nat.lt_succ_iff.1 (by exact_mod_cast hlt)

/-- On the grid of seventeen digits something is found. -/
theorem find?_neighbours_ne_none (hx : x.toModel.unpack = .finite .positive m e hm) {n d : ℕ}
    (hn : 0 < n) (hd : 0 < d) (hvalue : (n : ℚ) / d = m * 2 ^ e) (hmin : -323 ≤ magnitude n d)
    (hmax : magnitude n d ≤ 309) :
    (neighbours n d (magnitude n d - (17 : ℕ))).find?
      (fun s => toFloat s (magnitude n d - (17 : ℕ)) == x) ≠ none := by
  obtain ⟨near, far, hlist, hnear, -⟩ := neighbours_spec n hd (magnitude n d - (17 : ℕ))
  obtain ⟨hlow, hhigh⟩ := scaled_bounds hn hd 17
  have hread : toFloat near (magnitude n d - (17 : ℕ)) = x := by
    refine toFloat_eq_of_near hx (by omega) (by omega) ?_ hlow hhigh hnear
    rw [← hvalue]
    field_simp
  rw [ne_eq, List.find?_eq_none, hlist]
  intro hall
  refine hall near List.mem_cons_self ?_
  rw [hread]
  exact beq_self hx

/-- The digits that are found for a float are those of a multiple of a power of ten that reads
back. -/
theorem shortest_spec (hx : x.toModel.unpack = .finite .positive m e hm) :
    ∃ (s : ℕ) (unit : ℤ), shortest x (fraction m e).1 (fraction m e).2 = .ofMultiple s unit ∧
      toFloat s unit = x ∧ 0 < s ∧ s ≤ 10 ^ 17 ∧ -340 ≤ unit ∧ unit ≤ 308 := by
  obtain ⟨hcanonical, he⟩ := isCanonical_of_unpack hx
  obtain ⟨hmin, hmax⟩ := magnitude_fraction_bounds hcanonical he
  obtain ⟨hn, hd, hvalue⟩ := fraction_spec hm e
  rw [shortest]
  split
  case h_1 digits hfound =>
    obtain ⟨count, hcount, hgrid⟩ := List.exists_of_findSome?_eq_some hfound
    rw [List.mem_range'_1] at hcount
    obtain ⟨s, hs, rfl⟩ := Option.map_eq_some_iff.1 hgrid
    obtain ⟨hread, hpos, hle⟩ := find?_neighbours_spec hn hd hs hx
    exact ⟨s, _, rfl, hread, hpos, hle.trans (Nat.pow_le_pow_right (by norm_num) (by omega)),
      by omega, by omega⟩
  case h_2 hnone =>
    rw [List.findSome?_eq_none_iff] at hnone
    have hgrid := Option.map_eq_none_iff.1 (hnone 17 (by rw [List.mem_range'_1]; omega))
    exact absurd hgrid (find?_neighbours_ne_none hx hn hd hvalue hmin hmax)

end

end PottsOracle.Decimal
