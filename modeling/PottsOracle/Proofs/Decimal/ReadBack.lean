import PottsOracle.Decimal.Style
import PottsOracle.Proofs.Decimal.Shortest
import PottsOracle.Proofs.Json.Spelling

/-!
# Floats that are written are read back

The digits of a float are written with the point in its place or with a power of ten.  Either way
the number that is read has the digits and the power of ten of the number that was written, so it is
rounded to the same float.
-/

namespace PottsOracle

namespace Decimal

open Float.Model Float.Model.UnpackedFloat Binary64 Json

/-! ## Digits without zeros at the end -/

/-- Digits of a number: there are some, the first one is not zero, and the point is in its place. -/
structure Digits.Represents (d : Digits) (q : ℚ) : Prop where
  ne_nil : d.digits ≠ []
  lt_ten : ∀ c ∈ d.digits, c < 10
  head_ne_zero : ∀ cs, d.digits ≠ 0 :: cs
  length_le : d.digits.length ≤ 18
  value : natOfDigits d.digits * (10 : ℚ) ^ (d.point - d.digits.length) = q

theorem natOfDigits_replicate_zero (k : ℕ) : natOfDigits (List.replicate k 0) = 0 := by
  induction k with
  | zero => rfl
  | succ k ih =>
    rw [List.replicate_succ', natOfDigits_append, ih]
    simp

/-- Zeros that are dropped from the end of a list. -/
theorem exists_eq_append_replicate_zero (ds : List ℕ) :
    ∃ k, ds = (ds.reverse.dropWhile (· == 0)).reverse ++ List.replicate k 0 := by
  set zeros := (ds.reverse.takeWhile (· == 0)).reverse with hzeros
  have hreplicate : zeros = List.replicate zeros.length 0 := by
    rw [List.eq_replicate_iff]
    refine ⟨rfl, fun c hc => ?_⟩
    simpa using List.mem_takeWhile_imp (List.mem_reverse.1 hc)
  refine ⟨zeros.length, ?_⟩
  rw [← hreplicate, hzeros, ← List.reverse_append, List.takeWhile_append_dropWhile,
    List.reverse_reverse]

theorem represents_ofMultiple {s : ℕ} (hs : 0 < s) (hs' : s ≤ 10 ^ 17) (unit : ℤ) :
    (Digits.ofMultiple s unit).Represents (s * 10 ^ unit) := by
  obtain ⟨k, hk⟩ := exists_eq_append_replicate_zero (Text.digits s)
  rw [Digits.ofMultiple]
  generalize ((Text.digits s).reverse.dropWhile (· == 0)).reverse = kept at *
  have hvalue : s = natOfDigits kept * 10 ^ k := by
    have hsum := Text.natOfDigits_digits s
    rw [hk, natOfDigits_append, natOfDigits_replicate_zero, List.length_replicate, add_zero] at hsum
    exact hsum.symm
  have hlength : (Text.digits s).length = kept.length + k := by
    rw [hk, List.length_append, List.length_replicate]
  have hle : (Text.digits s).length ≤ 18 := (Text.length_digits_le_iff (by norm_num)).2 (by omega)
  constructor
  case ne_nil =>
    rintro rfl
    rw [natOfDigits_nil, zero_mul] at hvalue
    omega
  case lt_ten =>
    intro c hc
    refine Text.lt_ten_of_mem_digits (n := s) ?_
    rw [hk]
    exact List.mem_append_left _ hc
  case head_ne_zero =>
    rintro cs rfl
    exact hs.ne' (Text.eq_zero_of_digits_eq_cons_zero hk)
  case length_le => simp only; omega
  case value =>
    have hexponent : ((Text.digits s).length + unit - kept.length : ℤ) = k + unit := by
      rw [hlength]
      push_cast
      ring
    simp only
    rw [hexponent, zpow_add₀ (by norm_num), zpow_natCast, ← mul_assoc]
    congr 1
    exact_mod_cast hvalue.symm

theorem point_ofMultiple_bounds {s : ℕ} (hs : s ≤ 10 ^ 17) (unit : ℤ) :
    unit ≤ (Digits.ofMultiple s unit).point ∧ (Digits.ofMultiple s unit).point ≤ unit + 18 := by
  have hle : (Text.digits s).length ≤ 18 := (Text.length_digits_le_iff (by norm_num)).2 (by omega)
  simp only [Digits.ofMultiple]
  omega

/-! ## Numbers that are read -/

/-- A text that is read as a float, and as its negative behind a minus sign. -/
def IsReadAs (t : Text) (x : Float) : Prop :=
  ∀ negative rest, EndsNumber rest →
    readNumber? negative (t ++ rest) = some (.leaf (.float (withSign negative x)), rest)

variable {t rest : Text} {whole places : List ℕ} {d : Digits} {q : ℚ}

theorem readFraction_map_ofDigit (hplaces : ∀ c ∈ places, c < 10) (hne : places ≠ [])
    (hrest : ∀ c ∈ rest.head?, isDigit c = false) :
    readFraction (46 :: (places.map Text.ofDigit ++ rest)) = some (places, rest) := by
  rw [readFraction, readDigits_map_ofDigit hplaces hrest]
  cases places with
  | nil => exact absurd rfl hne
  | cons c cs => rfl

theorem readNumber?_fraction (negative : Bool) (hwhole : readInteger? t =
      some (whole, 46 :: (places.map Text.ofDigit ++ rest)))
    (hplaces : ∀ c ∈ places, c < 10) (hne : places ≠ [])
    (hrest : ∀ c ∈ rest.head?, isDigit c = false) :
    readNumber? negative t = some (.leaf (.float (withSign negative
      (toFloat (natOfDigits (whole ++ places))
        (((readExponent rest).getD (0, rest)).1 - places.length)))),
      ((readExponent rest).getD (0, rest)).2) := by
  simp [readNumber?, hwhole, readFraction_map_ofDigit hplaces hne hrest]

/-- Digits on both sides of a point that are read as a number. -/
structure IsPointed (whole places : List ℕ) (q : ℚ) : Prop where
  whole_ne_nil : whole ≠ []
  places_ne_nil : places ≠ []
  lt_ten : ∀ c ∈ whole ++ places, c < 10
  whole_zero : ∀ cs, whole = 0 :: cs → cs = []
  length_le : (whole ++ places).length ≤ 40
  value : natOfDigits (whole ++ places) * (10 : ℚ) ^ (-places.length : ℤ) = q

theorem IsPointed.isReadAs (h : IsPointed whole places q) :
    IsReadAs (whole.map Text.ofDigit ++ 46 :: places.map Text.ofDigit)
      (toFloat (natOfDigits (whole ++ places)) (-places.length)) := by
  intro negative rest hrest
  have hwhole : readInteger? (whole.map Text.ofDigit ++ 46 :: (places.map Text.ofDigit ++ rest)) =
      some (whole, 46 :: (places.map Text.ofDigit ++ rest)) :=
    readInteger?_map_ofDigit (fun c hc => h.lt_ten c (List.mem_append_left _ hc)) h.whole_ne_nil
      h.whole_zero (by simp [isDigit])
  rw [List.append_assoc, List.cons_append, readNumber?_fraction negative hwhole
    (fun c hc => h.lt_ten c (List.mem_append_right _ hc)) h.places_ne_nil
    fun c hc => (hrest c hc).1]
  simp [hrest.readExponent]

/-! ## The point in its place -/

theorem Digits.Represents.ne_cons_zero (hd : d.Represents q)
    (hhead : whole.head? = d.digits.head?) (cs : List ℕ) : whole ≠ 0 :: cs := by
  rintro rfl
  obtain ⟨c, ds, hds⟩ := List.exists_cons_of_ne_nil hd.ne_nil
  rw [hds, List.head?_cons, List.head?_cons, Option.some.injEq] at hhead
  exact hd.head_ne_zero ds (hhead ▸ hds)

/-- All digits stand behind the point, and zeros in front of them. -/
theorem isPointed_front (hd : d.Represents q) {k : ℕ} (hk : k ≤ 3) (hpoint : d.point = -k) :
    IsPointed [0] (List.replicate k 0 ++ d.digits) q where
  whole_ne_nil := List.cons_ne_nil 0 []
  places_ne_nil := List.append_ne_nil_of_right_ne_nil _ hd.ne_nil
  lt_ten := by
    have hlt := hd.lt_ten
    simp only [List.mem_append, List.mem_replicate, List.mem_singleton]
    grind
  whole_zero := by simp
  length_le := by
    have hlength := hd.length_le
    simp only [List.length_append, List.length_singleton, List.length_replicate]
    omega
  value := by
    rw [natOfDigits_append, natOfDigits_append, natOfDigits_replicate_zero, ← hd.value, hpoint]
    simp only [natOfDigits_singleton, zero_mul, zero_add, List.length_append,
      List.length_replicate]
    congr 2
    push_cast
    ring

/-- All digits stand before the point, and zeros behind them. -/
theorem isPointed_behind (hd : d.Represents q) {k : ℕ} (hk : k ≤ 16)
    (hpoint : d.point = d.digits.length + k) :
    IsPointed (d.digits ++ List.replicate k 0) [0] q where
  whole_ne_nil := List.append_ne_nil_of_left_ne_nil hd.ne_nil _
  places_ne_nil := List.cons_ne_nil 0 []
  lt_ten := by
    have hlt := hd.lt_ten
    simp only [List.mem_append, List.mem_replicate, List.mem_singleton]
    grind
  whole_zero cs hcs := by
    refine absurd hcs (hd.ne_cons_zero ?_ cs)
    rw [List.head?_append_of_ne_nil _ hd.ne_nil]
  length_le := by
    have hlength := hd.length_le
    simp only [List.length_append, List.length_singleton, List.length_replicate]
    omega
  value := by
    rw [natOfDigits_append, natOfDigits_append, natOfDigits_replicate_zero, ← hd.value, hpoint,
      add_sub_cancel_left]
    simp

/-- The point stands between the digits. -/
theorem isPointed_between (hd : d.Represents q) {k : ℕ} (hpos : 0 < k) (hlt : k < d.digits.length)
    (hpoint : d.point = k) : IsPointed (d.digits.take k) (d.digits.drop k) q where
  whole_ne_nil := by
    rw [ne_eq, List.take_eq_nil_iff, not_or]
    exact ⟨hpos.ne', hd.ne_nil⟩
  places_ne_nil := by rwa [ne_eq, List.drop_eq_nil_iff, not_le]
  lt_ten := by
    rw [List.take_append_drop]
    exact hd.lt_ten
  whole_zero cs hcs := by
    refine absurd hcs (hd.ne_cons_zero ?_ cs)
    rw [List.head?_take, if_neg hpos.ne']
  length_le := by
    rw [List.take_append_drop]
    exact hd.length_le.trans (by norm_num)
  value := by
    rw [List.take_append_drop, List.length_drop, ← hd.value, hpoint]
    congr 2
    omega

/-- Digits with the point in its place have digits on both sides of it. -/
theorem exists_isPointed_inPlace (hd : d.Represents q) (hmin : -3 ≤ d.point)
    (hmax : d.point ≤ 16) :
    ∃ whole places, inPlace d = whole.map Text.ofDigit ++ 46 :: places.map Text.ofDigit ∧
      IsPointed whole places q := by
  simp only [inPlace, List.length_map]
  split_ifs with hfront hbehind
  · obtain ⟨k, hk⟩ := Int.eq_ofNat_of_zero_le (show 0 ≤ -d.point by omega)
    refine ⟨_, _, ?_, isPointed_front hd (k := k) (by omega) (by omega)⟩
    simp [hk, Text.ofString, Text.ofDigit]
  · obtain ⟨k, hk⟩ := Int.eq_ofNat_of_zero_le (show 0 ≤ d.point - d.digits.length by omega)
    refine ⟨_, _, ?_, isPointed_behind hd (k := k) (by omega) (by omega)⟩
    simp [hk, Text.ofString, Text.ofDigit]
  · obtain ⟨k, hk⟩ := Int.eq_ofNat_of_zero_le (show 0 ≤ d.point by omega)
    refine ⟨_, _, ?_, isPointed_between hd (k := k) (by omega) (by omega) hk⟩
    simp [hk]

theorem isReadAs_inPlace (hd : d.Represents q) (hmin : -3 ≤ d.point) (hmax : d.point ≤ 16)
    (hq : 0 < q) {x : Float} (hx : IsRounded q x) : IsReadAs (inPlace d) x := by
  obtain ⟨whole, places, heq, hpointed⟩ := exists_isPointed_inPlace hd hmin hmax
  have hlength := hpointed.length_le
  have hlt := (natOfDigits_lt hpointed.lt_ten).trans_le
    (Nat.pow_le_pow_right (by norm_num) hlength)
  rw [List.length_append] at hlength
  rw [heq, ← hx.toFloat_eq hq hpointed.value hlt (by omega) (by omega)]
  exact hpointed.isReadAs

/-! ## A power of ten -/

/-- A power of ten that is written is read. -/
theorem readExponent_signed (e : ℤ) (k : ℕ) (hrest : EndsNumber rest) :
    readExponent (101 :: (if e < 0 then 45 else 43) ::
      (List.replicate k 48 ++ (Text.ofNat e.natAbs ++ rest))) = some (e, rest) := by
  have hlt : ∀ c ∈ List.replicate k 0 ++ Text.digits e.natAbs, c < 10 := by
    intro c hc
    rcases List.mem_append.1 hc with hc | hc
    · rw [(List.mem_replicate.1 hc).2]
      norm_num
    · exact Text.lt_ten_of_mem_digits hc
  have hdigits : readDigits (List.replicate k 48 ++ (Text.ofNat e.natAbs ++ rest)) =
      (List.replicate k 0 ++ Text.digits e.natAbs, rest) := by
    have hread := readDigits_map_ofDigit hlt fun c hc => (hrest c hc).1
    simpa [Text.ofNat, Text.ofDigit] using hread
  have hvalue : natOfDigits (List.replicate k 0 ++ Text.digits e.natAbs) = e.natAbs := by
    rw [natOfDigits_append, natOfDigits_replicate_zero, zero_mul, zero_add, Text.natOfDigits_digits]
  have hne : List.replicate k 0 ++ Text.digits e.natAbs ≠ [] :=
    List.append_ne_nil_of_right_ne_nil _ (Text.digits_ne_nil _)
  generalize List.replicate k 0 ++ Text.digits e.natAbs = ds at *
  obtain ⟨c, cs, rfl⟩ := List.exists_cons_of_ne_nil hne
  simp only [readExponent, true_or, if_true]
  split_ifs with hneg
  · simp only [readSign, hdigits, hvalue, signed, if_true]
    rw [Int.ofNat_natAbs_of_nonpos hneg.le, neg_neg]
  · simp only [readSign, hdigits, hvalue, signed]
    rw [if_neg (by decide), Int.natAbs_of_nonneg (not_lt.1 hneg)]

theorem isReadAs_withExponent (hd : d.Represents q) (width : ℕ) (hmin : -340 ≤ d.point)
    (hmax : d.point ≤ 330) (hq : 0 < q) {x : Float} (hx : IsRounded q x) :
    IsReadAs (withExponent width d) x := by
  have hlength := hd.length_le
  have hlt := hd.lt_ten
  rw [← hx.toFloat_eq hq hd.value ((natOfDigits_lt hlt).trans_le
    (Nat.pow_le_pow_right (by norm_num) (by omega))) (by omega) (by omega)]
  intro negative rest hrest
  obtain ⟨c, cs, hds⟩ := List.exists_cons_of_ne_nil hd.ne_nil
  rw [hds] at hlt
  have hc : ∀ c' ∈ [c], c' < 10 := by simpa using hlt c List.mem_cons_self
  have hexponent := readExponent_signed (d.point - 1)
    (width - (Text.ofNat (d.point - 1).natAbs).length) hrest
  simp only [withExponent, hds, List.length_cons, List.append_assoc, List.cons_append]
  generalize hpower : (if d.point - 1 < 0 then 45 else 43) ::
    (List.replicate (width - (Text.ofNat (d.point - 1).natAbs).length) 48 ++
      (Text.ofNat (d.point - 1).natAbs ++ rest)) = power at *
  have hend : ∀ c' ∈ (101 :: power).head?, isDigit c' = false := by simp [isDigit]
  -- a lone digit has no point behind it
  cases cs with
  | nil =>
    have hwhole : readInteger? (Text.ofDigit c :: 101 :: power) = some ([c], 101 :: power) :=
      readInteger?_map_ofDigit hc (List.cons_ne_nil c []) (by simp) hend
    have hnone : readFraction (101 :: power) = none := rfl
    simp [readNumber?, hwhole, hnone, hexponent]
  | cons c' cs =>
    have hwhole : readInteger? (Text.ofDigit c :: 46 :: ((c' :: cs).map Text.ofDigit ++
          101 :: power)) =
        some ([c], 46 :: ((c' :: cs).map Text.ofDigit ++ 101 :: power)) :=
      readInteger?_map_ofDigit hc (List.cons_ne_nil c []) (by simp) (by simp [isDigit])
    have hplaces : ∀ x ∈ c' :: cs, x < 10 := fun x hx => hlt x (List.mem_cons_of_mem c hx)
    have hread := readNumber?_fraction negative hwhole hplaces
      (List.cons_ne_nil c' cs) hend
    rw [hexponent] at hread
    simp only [List.map_cons, List.cons_append] at hread ⊢
    rw [hread]
    have hsum : d.point - 1 - ((cs.length : ℤ) + 1) = d.point - (cs.length + 1 + 1) := by ring
    simp [hsum]

/-! ## Floats -/

section

variable {x : Float} {s : Sign} {m : ℕ} {e : ℤ} {hm : 0 < m}

theorem write_of_unpack (style : Style) (hx : x.toModel.unpack = .finite s m e hm) :
    let digits := shortest x.abs (fraction m e).1 (fraction m e).2
    write style x = (if s == .negative then [45] else []) ++
      if style.leastPoint ≤ digits.point ∧ digits.point ≤ style.greatestPoint
      then inPlace digits else withExponent style.exponentWidth digits := by
  obtain ⟨k, rfl⟩ := Nat.exists_eq_succ_of_ne_zero hm.ne'
  simp only [write, decode_eq, hx, Parts.ofUnpacked]

/-- What is written for a finite float is its absolute value, behind its sign. -/
theorem exists_isReadAs (hx : x.toModel.unpack = .finite s m e hm) :
    ∃ t, IsReadAs t x.abs ∧
      write document x = (if s == .negative then [45] else []) ++ t := by
  have habs : x.abs.toModel.unpack = .finite .positive m e hm := by
    obtain ⟨hcanonical, he⟩ := isCanonical_of_unpack hx
    rw [abs_eq_of_unpack hx]
    exact unpack_pack_finite hcanonical he .positive
  obtain ⟨significand, unit, hshortest, hread, hpos, hle, hmin, hmax⟩ := shortest_spec habs
  have hdigits := represents_ofMultiple hpos hle unit
  have hpoint := point_ofMultiple_bounds hle unit
  have hrounded : IsRounded (significand * 10 ^ unit) (toFloat significand unit) :=
    isRounded_toFloat hpos (hle.trans_lt (by norm_num)) (by omega) (by omega)
  have hq : (0 : ℚ) < significand * 10 ^ unit := by positivity
  rw [hread] at hrounded
  rw [write_of_unpack document hx, hshortest]
  refine ⟨_, ?_, rfl⟩
  by_cases hplace : document.leastPoint ≤ (Digits.ofMultiple significand unit).point ∧
      (Digits.ofMultiple significand unit).point ≤ document.greatestPoint
  · rw [if_pos hplace]
    exact isReadAs_inPlace hdigits hplace.1 hplace.2 hq hrounded
  · rw [if_neg hplace]
    exact isReadAs_withExponent hdigits _ (by omega) (by omega) hq hrounded

end

end Decimal

namespace Json

theorem isDigit_of_readInteger? {c : CodePoint} {s : Text} (h : readInteger? (c :: s) ≠ none) :
    isDigit c = true := by
  by_contra hc
  have hnil : readDigits (c :: s) = ([], c :: s) := by simp [readDigits, hc]
  refine h ?_
  rw [readInteger?]
  · rw [hnil]
  · rintro rest heq
    simp only [List.cons.injEq] at heq
    exact hc (heq.1 ▸ rfl)

theorem exists_isDigit_of_readNumber? {negative : Bool} {s rest : Text} {token : Token}
    (h : readNumber? negative s = some (token, rest)) :
    ∃ c behind, s = c :: behind ∧ isDigit c = true := by
  cases s with
  | nil => simp [readNumber?, readInteger?, readDigits] at h
  | cons c behind =>
    refine ⟨c, behind, rfl, isDigit_of_readInteger? (s := behind) fun hnone => ?_⟩
    simp [readNumber?, hnone] at h

theorem readToken?_of_isReadAs {t rest : Text} {x : Float} (h : Decimal.IsReadAs t x)
    (hrest : EndsNumber rest) (negative : Bool) :
    readToken? ((if negative then [45] else []) ++ t ++ rest) =
      some (.leaf (.float (Decimal.withSign negative x)), rest) := by
  have hread := h negative rest hrest
  obtain ⟨c, behind, hc, hdigit⟩ := exists_isDigit_of_readNumber? hread
  rw [List.append_assoc, hc]
  rw [hc] at hread
  cases negative with
  | false => exact (readToken?_of_isDigit hdigit).trans hread
  | true => exact (readToken?_minus_of_isDigit hdigit).trans hread

/-- A float that is written is read back. -/
theorem readToken?_write (x : Float) {rest : Text} (hrest : EndsNumber rest) :
    readToken? (Decimal.write Decimal.document x ++ rest) = some (.leaf (.float x), rest) := by
  cases hx : x.toModel.unpack with
  | notANumber =>
    have heq : x = Binary64.notANumber := by
      rw [Binary64.eq_pack_of_unpack hx]
      rfl
    simp only [Decimal.write, Binary64.decode_eq, hx, Binary64.Parts.ofUnpacked]
    simp [Decimal.document, Text.ofString, readToken?, mark?, readWord?, words_eq, heq]
  | infinity s =>
    have heq : x = if s == .negative then -Binary64.infinity else Binary64.infinity := by
      rw [Binary64.eq_pack_of_unpack hx]
      cases s <;> rfl
    simp only [Decimal.write, Binary64.decode_eq, hx, Binary64.Parts.ofUnpacked]
    cases s <;>
      simp [Decimal.document, Text.ofString, readToken?, mark?, readWord?, words_eq, heq]
  | zero s =>
    have hzero : Decimal.IsReadAs (Text.ofString "0.0") (Float.ofScientific 0 false 0) := by
      have hpointed : Decimal.IsPointed [0] [0] 0 := by constructor <;> simp [natOfDigits]
      exact hpointed.isReadAs
    have heq : Decimal.withSign (s == .negative) (Float.ofScientific 0 false 0) = x := by
      rw [Binary64.eq_pack_of_unpack hx]
      cases s <;> rfl
    simp only [Decimal.write, Binary64.decode_eq, hx, Binary64.Parts.ofUnpacked]
    rw [readToken?_of_isReadAs hzero hrest, heq]
  | finite s m e hm =>
    obtain ⟨t, ht, hwrite⟩ := Decimal.exists_isReadAs hx
    have heq : Decimal.withSign (s == .negative) x.abs = x := Binary64.ite_neg_abs hx
    rw [hwrite, readToken?_of_isReadAs ht hrest, heq]

end Json

end PottsOracle
