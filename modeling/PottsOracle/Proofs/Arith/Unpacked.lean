import Mathlib
import PottsOracle.Proofs.Arith.Rounding

/-!
# The parts of a float

A float is packed into bits.  `decode` reads the bits as the unpacked float says, and what is finite
has a significand and an exponent that no other parts of the same value have.

The lemmas about packing floats that this builds on come with the whole of Mathlib only, so that it is
imported as a whole here.
-/

namespace PottsOracle.Binary64

open Float.Model Float.Model.UnpackedFloat

/-! ## From bits -/

theorem toNat_unpackMantissa (b : BitVec Format.binary64.numBits) :
    (unpackMantissa b).toNat = b.toNat % 2 ^ 52 := by
  rw [unpackMantissa_def, BitVec.extractLsb'_toNat, Nat.shiftRight_zero]

theorem toNat_unpackExponent (b : BitVec Format.binary64.numBits) :
    (unpackExponent b).toNat = b.toNat / 2 ^ 52 % 2 ^ 11 := by
  rw [unpackExponent_def, BitVec.extractLsb'_toNat, Nat.shiftRight_eq_div_pow]

theorem ofBitVec_unpackSign (b : BitVec Format.binary64.numBits) :
    (Sign.ofBitVec (unpackSign b) == .negative) = (b.toNat / 2 ^ 63 == 1) := by
  have hlt : b.toNat < 2 ^ 64 := b.isLt
  have hsign : (unpackSign b).toNat = b.toNat / 2 ^ 63 := by
    rw [unpackSign_def, BitVec.extractLsb'_toNat, Nat.shiftRight_eq_div_pow]
    exact Nat.mod_eq_of_lt (by
      change b.toNat / 2 ^ 63 < 2
      omega)
  rw [← hsign]
  generalize unpackSign b = c
  revert c
  decide

theorem eq_neg_one_iff (field : BitVec 11) : field = -1#11 ↔ field.toNat = 2047 := by
  rw [← BitVec.toNat_inj]
  rfl

theorem eq_zero_iff {n : ℕ} (b : BitVec n) : b = 0#n ↔ b.toNat = 0 := by
  rw [← BitVec.toNat_inj, BitVec.toNat_zero]

/-- A normal float has a leading bit that is not stored. -/
theorem toNat_one_append (b : BitVec 52) : (1#1 ++ b).toNat = 2 ^ 52 + b.toNat := by
  rw [BitVec.toNat_append, ← Nat.shiftLeft_add_eq_or_of_lt b.isLt]
  rfl

/-- The parts of an unpacked float. -/
def Parts.ofUnpacked : UnpackedFloat → Parts
  | .notANumber => .notANumber
  | .infinity s => .infinite (s == .negative)
  | .zero s => .finite (s == .negative) 0 (-1074)
  | .finite s m e _ => .finite (s == .negative) m e

theorem decode_eq (x : Float) : decode x = Parts.ofUnpacked x.toModel.unpack := by
  let b : BitVec Format.binary64.numBits := x.toModel.toBits.toBitVec
  have hones : (unpackExponent b).toNat = 2047 ↔ unpackExponent b = -1#_ :=
    (eq_neg_one_iff _).symm
  have hzero : (unpackExponent b).toNat = 0 ↔ unpackExponent b = 0#_ := (eq_zero_iff _).symm
  have hempty : (unpackMantissa b).toNat = 0 ↔ unpackMantissa b = 0#_ := (eq_zero_iff _).symm
  have hbits : x.toBits.toNat = b.toNat := rfl
  have hunpack : x.toModel.unpack = unpack .binary64 b := rfl
  simp only [decode, hbits, hunpack, Nat.pow_eq, ← toNat_unpackMantissa, ← toNat_unpackExponent,
    ← ofBitVec_unpackSign, hones, hzero, hempty]
  fun_cases Float.Model.UnpackedFloat.unpack .binary64 b
  case case1 hexponent hmantissa => rw [if_pos hexponent, if_pos hmantissa, Parts.ofUnpacked]
  case case2 hexponent hmantissa => rw [if_pos hexponent, if_neg hmantissa, Parts.ofUnpacked]
  case case3 hexponent hexponent' hmantissa =>
    rw [if_neg hexponent, if_pos hexponent', hempty.2 hmantissa, Parts.ofUnpacked]
  case case4 mantissa field exponent _ _ hfield hfield' hmantissa =>
    have hexponent : exponent + 1 = -1074 := by
      change (field.toNat : ℤ) - (1023 + 52) + 1 = -1074
      rw [hfield']
      rfl
    rw [if_neg hfield, if_pos hfield', Parts.ofUnpacked, hexponent]
  case case5 mantissa field exponent _ _ hfield hfield' =>
    have hexponent : exponent = (field.toNat : ℤ) - 1075 := rfl
    have hmantissa : (1#1 ++ mantissa).toNat = 2 ^ 52 + mantissa.toNat := toNat_one_append mantissa
    rw [if_neg hfield, if_neg hfield', Parts.ofUnpacked, hexponent, hmantissa]

theorem unpack_of_decode {x : Float} {negative : Bool} {m : ℕ} {e : ℤ}
    (h : decode x = .finite negative m e) (hm : 0 < m) :
    ∃ s, (s == .negative) = negative ∧ x.toModel.unpack = .finite s m e hm := by
  rw [decode_eq] at h
  cases hx : x.toModel.unpack with
  | notANumber => simp [hx, Parts.ofUnpacked] at h
  | infinity s => simp [hx, Parts.ofUnpacked] at h
  | zero s =>
    simp only [hx, Parts.ofUnpacked, Parts.finite.injEq] at h
    omega
  | finite s m' e' hm' =>
    simp only [hx, Parts.ofUnpacked, Parts.finite.injEq] at h
    obtain ⟨hs, rfl, rfl⟩ := h
    exact ⟨s, hs, rfl⟩

/-- A finite float has its leading bit in front, or the least exponent; its exponent is not too
large. -/
theorem isCanonical_of_unpack {x : Float} {s : Sign} {m : ℕ} {e : ℤ} {hm : 0 < m}
    (h : x.toModel.unpack = .finite s m e hm) : IsCanonical m e ∧ e ≤ 971 := by
  let b : BitVec Format.binary64.numBits := x.toModel.toBits.toBitVec
  have hlt : (unpackMantissa b).toNat < 2 ^ 52 := (unpackMantissa b).isLt
  change unpack .binary64 b = _ at h
  revert h
  fun_cases Float.Model.UnpackedFloat.unpack .binary64 b
  all_goals simp only [reduceCtorEq, finite.injEq, false_implies]
  case case4 mantissa field exponent _ _ hfield hfield' hmantissa =>
    rintro ⟨-, rfl, rfl⟩
    have hexponent : exponent + 1 = -1074 := by
      change (field.toNat : ℤ) - (1023 + 52) + 1 = -1074
      rw [hfield']
      rfl
    rw [hexponent]
    exact ⟨⟨hm, hlt.trans (by norm_num), le_rfl, .inr rfl⟩, by norm_num⟩
  case case5 mantissa field exponent _ _ hfield hfield' =>
    rintro ⟨-, rfl, rfl⟩
    have hexponent : exponent = (field.toNat : ℤ) - 1075 := rfl
    have hmantissa : (1#1 ++ mantissa).toNat = 2 ^ 52 + mantissa.toNat := toNat_one_append mantissa
    have hpos : field.toNat ≠ 0 := mt (eq_zero_iff _).2 hfield'
    have hmax : field.toNat ≠ 2047 := mt (eq_neg_one_iff _).2 hfield
    have hfield_lt : field.toNat < 2 ^ 11 := field.isLt
    change mantissa.toNat < 2 ^ 52 at hlt
    rw [hexponent, hmantissa]
    exact ⟨⟨by omega, by omega, by omega, .inl (by omega)⟩, by omega⟩

/-! ## To bits -/

/-- A float is what its unpacked form is packed to. -/
theorem eq_pack (x : Float) : x = ⟨Float.Model.pack x.toModel.unpack⟩ := by
  refine Float.toBits_inj.1 (UInt64.toBitVec_inj.1 ?_)
  exact (pack_unpack_of_valid x.toModel.valid).symm

theorem unpack_normal (s : Sign) {field : BitVec 11} (hzero : field ≠ 0#11)
    (hones : field ≠ -1#11) (mantissa : BitVec 52) {m : ℕ} (hm : m = 2 ^ 52 + mantissa.toNat)
    {e : ℤ} (he : e = field.toNat - 1075) (hpos : 0 < m) :
    unpack .binary64 (packComponents .binary64 s field mantissa) = .finite s m e hpos := by
  subst hm he
  simp only [UnpackedFloat.unpack, unpackExponent_packComponents, unpackMantissa_packComponents,
    unpackSign_packComponents, Sign.ofBitVec_toBitVec]
  rw [if_neg hones, if_neg hzero]
  simp only [toNat_one_append]
  rfl

theorem unpack_subnormal (s : Sign) {mantissa : BitVec 52} (hmantissa : mantissa ≠ 0#52)
    (hpos : 0 < mantissa.toNat) :
    unpack .binary64 (packComponents .binary64 s 0#11 mantissa) =
      .finite s mantissa.toNat (-1074) hpos := by
  simp only [UnpackedFloat.unpack, unpackExponent_packComponents, unpackMantissa_packComponents,
    unpackSign_packComponents, Sign.ofBitVec_toBitVec]
  rw [if_neg (by decide), if_pos trivial, dif_neg hmantissa]
  rfl

/-- A finite float is taken apart as it was packed. -/
theorem unpack_pack_finite {m : ℕ} {e : ℤ} (h : IsCanonical m e) (he : e ≤ 971) (s : Sign) :
    (Float.Model.pack (.finite s m e h.pos)).unpack = .finite s m e h.pos := by
  have hmin := h.min_le
  have hlt := h.lt
  have hlog : m.log2 + 1 = 53 ↔ 2 ^ 52 ≤ m := by
    rw [← Nat.le_log2 h.pos.ne']
    have := (Nat.log2_lt h.pos.ne').2 h.lt
    omega
  have hfinite : ¬ 2 ^ 11 ≤ (e + 1023 + 52).toNat + 1 := by omega
  change UnpackedFloat.unpack .binary64 (UnpackedFloat.pack .binary64 (.finite s m e h.pos)) = _
  have hpack : UnpackedFloat.pack .binary64 (.finite s m e h.pos) =
      if m.log2 + 1 = 53 then packComponents .binary64 s (BitVec.ofNat 11 (e + 1023 + 52).toNat)
        (BitVec.ofNat 52 m)
      else packComponents .binary64 s 0#11 (BitVec.ofNat 52 m) := if_neg hfinite
  rw [hpack]
  by_cases hnormal : 2 ^ 52 ≤ m
  · have hfield : (BitVec.ofNat 11 (e + 1023 + 52).toNat).toNat = (e + 1075).toNat := by
      rw [BitVec.toNat_ofNat]
      omega
    rw [if_pos (hlog.2 hnormal)]
    refine unpack_normal s ?_ ?_ _ ?_ ?_ h.pos
    · rw [ne_eq, eq_zero_iff, hfield]
      omega
    · rw [ne_eq, eq_neg_one_iff, hfield]
      omega
    · rw [BitVec.toNat_ofNat]
      omega
    · rw [hfield]
      omega
  · obtain rfl := h.le.resolve_left hnormal
    have hmantissa : (BitVec.ofNat 52 m).toNat = m := by
      rw [BitVec.toNat_ofNat]
      omega
    have hne : BitVec.ofNat 52 m ≠ 0#52 := by
      rw [ne_eq, eq_zero_iff, hmantissa]
      exact h.pos.ne'
    rw [if_neg (mt hlog.1 hnormal), unpack_subnormal s hne (by rw [hmantissa]; exact h.pos)]
    simp only [hmantissa]

/-- A size is no number, an infinity or a zero if the float is, and else the finite float without its
sign. -/
lemma unpack_abs (x : Float) : (Scalar.abs x).toModel.unpack = x.toModel.unpack.abs := by
  have habs : (Scalar.abs x).toModel.unpack = (Float.Model.pack x.toModel.unpack.abs).unpack := rfl
  rw [habs]
  cases h : x.toModel.unpack with
  | notANumber => rfl
  | infinity s => cases s <;> rfl
  | zero s => cases s <;> rfl
  | finite s m e hm =>
    obtain ⟨hcanonical, he⟩ := isCanonical_of_unpack h
    exact unpack_pack_finite hcanonical he .positive

section

variable {x : Float} {s : Sign} {m : ℕ} {e : ℤ} {hm : 0 < m}

theorem eq_pack_of_unpack {u : UnpackedFloat} (h : x.toModel.unpack = u) :
    x = ⟨Float.Model.pack u⟩ := by
  rw [← h, ← eq_pack]

theorem abs_eq_of_unpack (h : x.toModel.unpack = .finite s m e hm) :
    x.abs = ⟨Float.Model.pack (.finite .positive m e hm)⟩ := by
  change (⟨Float.Model.pack x.toModel.unpack.abs⟩ : Float) = _
  rw [h]
  rfl

/-- A finite float is its absolute value with its sign. -/
theorem ite_neg_abs (h : x.toModel.unpack = .finite s m e hm) :
    (if s == .negative then -x.abs else x.abs) = x := by
  obtain ⟨hcanonical, he⟩ := isCanonical_of_unpack h
  rw [abs_eq_of_unpack h, eq_pack_of_unpack h]
  cases s
  · change (⟨Float.Model.pack (Float.Model.pack (.finite .positive m e hm)).unpack.neg⟩ : Float) = _
    rw [unpack_pack_finite hcanonical he]
    rfl
  · rfl

end

end PottsOracle.Binary64
