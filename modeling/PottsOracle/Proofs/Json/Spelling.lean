import Mathlib.Data.List.Chain
import PottsOracle.Json.Printer
import PottsOracle.Proofs.Json.Lexeme

/-!
# Leaves that are read back

A text is written with escapes and read back code point by code point.  Two surrogates that form a
pair would be read as one code point, so a text with such a pair is not read back; but no text that
was read from a document of scalar values has one.

An integer is written with its digits and read back up to where no character of a number follows.
-/

namespace PottsOracle

namespace Text

/-- A text that holds no surrogates: what a file or a string can hold. -/
def IsScalar (t : Text) : Prop :=
  ∀ c ∈ t, c < 0x110000 ∧ isHighSurrogate c = false ∧ isLowSurrogate c = false

/-- A text that may hold surrogates, but no pair of them. -/
structure IsUnpaired (t : Text) : Prop where
  lt : ∀ c ∈ t, c < 0x110000
  unpaired : t.IsChain fun a b => isHighSurrogate a = true → isLowSurrogate b = false

theorem IsUnpaired.tail {c : CodePoint} {t : Text} (h : IsUnpaired (c :: t)) : IsUnpaired t :=
  ⟨fun d hd => h.lt d (.tail _ hd), h.unpaired.tail⟩

theorem isUnpaired_nil : IsUnpaired [] := ⟨by simp, .nil⟩

theorem isUnpaired_singleton {c : CodePoint} (h : c < 0x110000) : IsUnpaired [c] :=
  ⟨by simpa using h, .singleton c⟩

/-- A text without surrogates has no pair of them. -/
theorem IsScalar.isUnpaired {t : Text} (h : IsScalar t) : IsUnpaired t := by
  refine ⟨fun c hc => (h c hc).1, List.Pairwise.isChain ?_⟩
  exact List.pairwise_of_forall_mem_list fun _ _ b hb _ => (h b hb).2.2

theorem IsScalar.suffix {s t : Text} (h : IsScalar t) (hs : s <:+ t) : IsScalar s :=
  fun c hc => h c (hs.subset hc)

theorem isHighSurrogate_eq_true_iff {c : Nat} :
    isHighSurrogate c = true ↔ 0xD800 ≤ c ∧ c < 0xDC00 := by
  simp [isHighSurrogate]

theorem isLowSurrogate_eq_true_iff {c : Nat} :
    isLowSurrogate c = true ↔ 0xDC00 ≤ c ∧ c < 0xE000 := by
  simp [isLowSurrogate]

/-- A string holds scalar values. -/
theorem isScalar_ofString (s : String) : IsScalar (ofString s) := by
  intro c hc
  obtain ⟨char, -, rfl⟩ := List.mem_map.1 hc
  have hvalid : char.toNat < 0xD800 ∨ 0xDFFF < char.toNat ∧ char.toNat < 0x110000 := char.valid
  have hlt : char.toNat < 0x110000 := by omega
  simp only [Bool.eq_false_iff, ne_eq, isHighSurrogate_eq_true_iff, isLowSurrogate_eq_true_iff]
  exact ⟨hlt, by omega, by omega⟩

end Text

namespace Json

/-! ## Digits in base sixteen -/

theorem hexValue?_ofDigit {d : Nat} (h : d < 16) : hexValue? (Text.ofDigit d) = some d := by
  simp only [hexValue?, Text.ofDigit]
  grind

theorem hexValue?_lt {c : CodePoint} {d : Nat} (h : hexValue? c = some d) : d < 16 := by
  simp only [hexValue?] at h
  grind

/-- A code unit of sixteen bits, as its four digits. -/
theorem escapeUnit_eq (u : Nat) : escapeUnit u = [92, 117, Text.ofDigit (u / 16 / 16 / 16 % 16),
    Text.ofDigit (u / 16 / 16 % 16), Text.ofDigit (u / 16 % 16), Text.ofDigit (u % 16)] := by
  simp [escapeUnit, Text.ofString, Text.hex]

theorem hexNumber?_ofDigit {u : Nat} (h : u < 0x10000) :
    hexNumber? (Text.ofDigit (u / 16 / 16 / 16 % 16)) (Text.ofDigit (u / 16 / 16 % 16))
      (Text.ofDigit (u / 16 % 16)) (Text.ofDigit (u % 16)) = some u := by
  have hlt (n : Nat) : n % 16 < 16 := Nat.mod_lt _ (by norm_num)
  simp only [hexNumber?, hexValue?_ofDigit (hlt _), Option.bind_eq_bind, Option.bind_some,
    Option.pure_def, Option.some.injEq]
  omega

theorem hexNumber?_lt {a b c d : CodePoint} {u : Nat} (h : hexNumber? a b c d = some u) :
    u < 0x10000 := by
  simp only [hexNumber?, Option.bind_eq_bind, Option.pure_def, Option.bind_eq_some_iff] at h
  obtain ⟨x, hx, y, hy, z, hz, w, hw, hu⟩ := h
  have := hexValue?_lt hx
  have := hexValue?_lt hy
  have := hexValue?_lt hz
  have := hexValue?_lt hw
  simp only [Option.some.injEq] at hu
  omega

/-! ## Texts that are written are read back -/

variable {rest : Text} {c : CodePoint}

/-- An escaped unit is read, unless it is the first half of a pair. -/
theorem readCodePoint?_escapeUnit {u : Nat} (hu : u < 0x10000)
    (hrest : Text.isHighSurrogate u = true → lowSurrogateNext? rest = none) :
    readCodePoint? (escapeUnit u ++ rest) = some (u, rest) := by
  have hnone : (if Text.isHighSurrogate u then lowSurrogateNext? rest else none) = none := by
    split
    case isTrue hhigh => exact hrest hhigh
    case isFalse => rfl
  simp [escapeUnit_eq, readCodePoint?, hexNumber?_ofDigit hu, hnone]

/-- Two escaped units that form a pair are read as one code point. -/
theorem readCodePoint?_pair {u low : Nat} (hu : 0xD800 ≤ u ∧ u < 0xDC00)
    (hlow : 0xDC00 ≤ low ∧ low < 0xE000) :
    readCodePoint? (escapeUnit u ++ (escapeUnit low ++ rest)) =
      some (Text.joinSurrogates u low, rest) := by
  have hhigh := Text.isHighSurrogate_eq_true_iff.2 hu
  have hlow' := Text.isLowSurrogate_eq_true_iff.2 hlow
  simp [escapeUnit_eq, readCodePoint?, hexNumber?_ofDigit (show u < 0x10000 by omega), hhigh,
    lowSurrogateNext?, hexNumber?_ofDigit (show low < 0x10000 by omega), Option.filter, hlow']

/-- The units of a code point beyond sixteen bits are a pair that stands for it. -/
theorem units_eq_pair {c : Nat} (hlarge : 0x10000 ≤ c) (hc : c < 0x110000) :
    ∃ u low : Nat, Text.units c = [u, low] ∧ (0xD800 ≤ u ∧ u < 0xDC00) ∧
      (0xDC00 ≤ low ∧ low < 0xE000) ∧ Text.joinSurrogates u low = c := by
  have hunits : Text.units c =
      [0xD800 + (c - 0x10000) / 0x400, 0xDC00 + (c - 0x10000) % 0x400] := by
    simp [Text.units, Nat.not_lt.2 hlarge]
  refine ⟨_, _, hunits, by omega, by omega, ?_⟩
  change 0x10000 + (0xD800 + (c - 0x10000) / 0x400 - 0xD800) * 0x400 +
    (0xDC00 + (c - 0x10000) % 0x400 - 0xDC00) = c
  omega

/-- A code point is read back, unless it is the first half of a pair. -/
theorem readCodePoint?_escape_append {c : Nat} (hc : c < 0x110000)
    (hrest : Text.isHighSurrogate c = true → lowSurrogateNext? rest = none) :
    readCodePoint? (escape c ++ rest) = some (c, rest) := by
  unfold escape
  split_ifs with hquote h₂ h₃ h₄ h₅ h₆ hascii
  · have hvalue : escapeValue? c = some c := by grind [escapeValue?]
    simp [readCodePoint?_escape (show c ≠ 117 by grind), hvalue]
  · simp [Text.ofString, readCodePoint?_escape, escapeValue?, h₂]
  · simp [Text.ofString, readCodePoint?_escape, escapeValue?, h₃]
  · simp [Text.ofString, readCodePoint?_escape, escapeValue?, h₄]
  · simp [Text.ofString, readCodePoint?_escape, escapeValue?, h₅]
  · simp [Text.ofString, readCodePoint?_escape, escapeValue?, h₆]
  · exact readCodePoint?_plain (by grind)
  · by_cases hlarge : c < 0x10000
    · simpa [Text.units, hlarge] using readCodePoint?_escapeUnit hlarge hrest
    · obtain ⟨u, low, hunits, hu, hlow, hjoin⟩ := units_eq_pair (Nat.not_lt.1 hlarge) hc
      simp [hunits, readCodePoint?_pair hu hlow, hjoin]

/-- The second half of a pair is an escaped unit. -/
theorem lowSurrogateNext?_escapeUnit {u : Nat} (hu : u < 0x10000)
    (hlow : Text.isLowSurrogate u = false) : lowSurrogateNext? (escapeUnit u ++ rest) = none := by
  simp [escapeUnit_eq, lowSurrogateNext?, hexNumber?_ofDigit hu, Option.filter, hlow]

theorem lowSurrogateNext?_cons (hc : c ≠ 92) : lowSurrogateNext? (c :: rest) = none := by
  rw [lowSurrogateNext?]
  simp_all

/-- A code point that is no second half of a pair is not read as one. -/
theorem lowSurrogateNext?_escape_append {c : Nat} (hc : c < 0x110000)
    (hlow : Text.isLowSurrogate c = false) : lowSurrogateNext? (escape c ++ rest) = none := by
  unfold escape
  split_ifs with hquote h₂ h₃ h₄ h₅ h₆ hascii
  · obtain rfl | rfl := hquote <;> simp [lowSurrogateNext?]
  · simp [Text.ofString, lowSurrogateNext?]
  · simp [Text.ofString, lowSurrogateNext?]
  · simp [Text.ofString, lowSurrogateNext?]
  · simp [Text.ofString, lowSurrogateNext?]
  · simp [Text.ofString, lowSurrogateNext?]
  · exact lowSurrogateNext?_cons (by grind)
  · by_cases hlarge : c < 0x10000
    · simpa [Text.units, hlarge] using lowSurrogateNext?_escapeUnit hlarge hlow
    · obtain ⟨u, low, hunits, hu, _, _⟩ := units_eq_pair (Nat.not_lt.1 hlarge) hc
      have hu' : Text.isLowSurrogate u = false := by
        rw [Bool.eq_false_iff, ne_eq, Text.isLowSurrogate_eq_true_iff]
        omega
      simpa [hunits] using lowSurrogateNext?_escapeUnit (by omega) hu'

/-- A text without pairs of surrogates is read back. -/
theorem readText?_escapes {t : Text} (ht : t.IsUnpaired) (rest : Text) :
    readText? (t.flatMap escape ++ 34 :: rest) = some (t, rest) := by
  induction t with
  | nil => simp [readText?]
  | cons c t ih =>
    have hrest : Text.isHighSurrogate c = true →
        lowSurrogateNext? (t.flatMap escape ++ 34 :: rest) = none := by
      intro hhigh
      cases t with
      | nil => exact lowSurrogateNext?_cons (by decide)
      | cons d t =>
        have hd := (List.isChain_cons_cons.1 ht.unpaired).1 hhigh
        simpa using lowSurrogateNext?_escape_append (ht.lt d (by simp)) hd
    have hread := readCodePoint?_escape_append (ht.lt c (by simp)) hrest
    simpa using readText?_of_readCodePoint? hread (ih ht.tail)

theorem readToken?_writeText {t : Text} (ht : t.IsUnpaired) (rest : Text) :
    readToken? (writeText t ++ rest) = some (.text t, rest) := by
  have hread := readText?_escapes ht rest
  simp [writeText, readToken?, mark?, hread]

/-! ## Texts that are read have no pairs -/

theorem escapeValue?_lt {v : CodePoint} (h : escapeValue? c = some v) : v < 128 := by
  grind [escapeValue?]

theorem not_surrogate_of_lt {c : Nat} (h : c < 0xD800) :
    Text.isHighSurrogate c = false ∧ Text.isLowSurrogate c = false := by
  simp only [Bool.eq_false_iff, ne_eq, Text.isHighSurrogate_eq_true_iff,
    Text.isLowSurrogate_eq_true_iff]
  omega

theorem not_surrogate_of_le {c : Nat} (h : 0xE000 ≤ c) :
    Text.isHighSurrogate c = false ∧ Text.isLowSurrogate c = false := by
  simp only [Bool.eq_false_iff, ne_eq, Text.isHighSurrogate_eq_true_iff,
    Text.isLowSurrogate_eq_true_iff]
  omega

theorem joinSurrogates_bounds {u low : Nat} (hu : Text.isHighSurrogate u = true)
    (hlow : Text.isLowSurrogate low = true) :
    0x10000 ≤ Text.joinSurrogates u low ∧ Text.joinSurrogates u low < 0x110000 := by
  rw [Text.isHighSurrogate_eq_true_iff] at hu
  rw [Text.isLowSurrogate_eq_true_iff] at hlow
  change 0x10000 ≤ 0x10000 + (u - 0xD800) * 0x400 + (low - 0xDC00) ∧
    0x10000 + (u - 0xD800) * 0x400 + (low - 0xDC00) < 0x110000
  omega

/-- A surrogate that is read was escaped: a second half could have followed a first half, and a
first half has no second half behind it. -/
theorem readCodePoint?_surrogates {s : Text} (hs : s.IsScalar)
    (h : readCodePoint? s = some (c, rest)) :
    c < 0x110000 ∧ (Text.isLowSurrogate c = true → lowSurrogateNext? s = some c) ∧
      (Text.isHighSurrogate c = true → lowSurrogateNext? rest = none) := by
  revert h
  fun_cases readCodePoint? s <;> intro h
  case case2 a b x d behind u hu low hlow =>
    simp only [Option.some.injEq, Prod.mk.injEq] at h
    split at hlow
    case isFalse => simp at hlow
    case isTrue hhigh =>
      obtain ⟨_, _, _, _, _, _, hpair⟩ := lowSurrogateNext?_eq_some hlow
      have hjoin := joinSurrogates_bounds hhigh (Option.filter_eq_some_iff.1 hpair).2
      have hnot := not_surrogate_of_le (le_trans (by decide) hjoin.1)
      rw [← h.1]
      simp [hjoin.2, hnot]
  case case3 a b x d after u hu hnone =>
    simp only [Option.some.injEq, Prod.mk.injEq] at h
    obtain ⟨rfl, rfl⟩ := h
    have hlt := hexNumber?_lt hu
    refine ⟨lt_trans hlt (by decide), fun hlow => ?_, fun hhigh => by simpa [hhigh] using hnone⟩
    simp [lowSurrogateNext?, hu, Option.filter, hlow]
  case case4 c behind _ =>
    obtain ⟨value, hvalue, heq⟩ := Option.map_eq_some_iff.1 h
    simp only [Prod.mk.injEq] at heq
    have hlt := escapeValue?_lt hvalue
    have hnot := not_surrogate_of_lt (lt_trans hlt (by decide))
    rw [← heq.1]
    exact ⟨lt_trans hlt (by decide), by simp [hnot]⟩
  case case6 c behind _ _ _ =>
    simp only [Option.some.injEq, Prod.mk.injEq] at h
    obtain ⟨hlt, hnot⟩ := hs c (by simp)
    rw [← h.1]
    simp [hlt, hnot]
  all_goals simp at h

/-- The first code point of a text is read at its start. -/
theorem exists_readCodePoint?_of_readText? {s t : Text}
    (h : readText? s = some (c :: t, rest)) : ∃ next, readCodePoint? s = some (c, next) := by
  revert h
  fun_cases readText? s <;> intro h
  case case1 => simp at h
  case case2 => simp at h
  case case3 d next _ hd =>
    obtain ⟨⟨u, behind⟩, _, heq⟩ := Option.map_eq_some_iff.1 h
    simp only [Prod.mk.injEq, List.cons.injEq] at heq
    exact ⟨next, heq.1.1 ▸ hd⟩

/-- A text that is read from scalar values has no pair of surrogates. -/
theorem isUnpaired_of_readText? {s t : Text} (hs : s.IsScalar)
    (h : readText? s = some (t, rest)) : t.IsUnpaired := by
  fun_induction readText? s generalizing t with
  | case1 behind =>
    simp only [Option.some.injEq, Prod.mk.injEq] at h
    exact h.1 ▸ Text.isUnpaired_nil
  | case2 => simp at h
  | case3 s _ c next hc ih =>
    obtain ⟨⟨u, behind⟩, hu, heq⟩ := Option.map_eq_some_iff.1 h
    simp only [Prod.mk.injEq] at heq
    obtain ⟨rfl, rfl⟩ := heq
    have hnext : next.IsScalar := hs.suffix (readCodePoint?_isReadFrom hc).suffix
    obtain ⟨hlt, _, hhigh⟩ := readCodePoint?_surrogates hs hc
    have hunpaired := ih hnext hu
    refine ⟨List.forall_mem_cons.2 ⟨hlt, hunpaired.lt⟩, ?_⟩
    cases u with
    | nil => exact .singleton c
    | cons d u =>
      refine List.isChain_cons_cons.2 ⟨fun hc => ?_, hunpaired.unpaired⟩
      -- A second half here would have been taken together with the first one.
      obtain ⟨_, hd⟩ := exists_readCodePoint?_of_readText? hu
      have hlow := (readCodePoint?_surrogates hnext hd).2.1
      rw [hhigh hc] at hlow
      simpa using hlow

theorem mark?_ne_text (c : CodePoint) (t : Text) : mark? c ≠ some (.text t) := by
  fun_cases mark? c <;> simp

theorem readNumber?_ne_text {negative : Bool} {s t : Text}
    (h : readNumber? negative s = some (.text t, rest)) : False := by
  obtain ⟨x, hx⟩ | ⟨ds, _, _, hds⟩ := readNumber?_cases h
  · simp at hx
  · unfold integerToken at hds
    split at hds <;> simp at hds

theorem isUnpaired_of_readToken? {s t : Text} (hs : s.IsScalar)
    (h : readToken? s = some (.text t, rest)) : t.IsUnpaired := by
  revert h
  fun_cases readToken? s <;> intro h
  case case1 => simp at h
  case case2 hmark =>
    simp only [Option.some.injEq, Prod.mk.injEq] at h
    exact absurd (h.1 ▸ hmark) (mark?_ne_text _ _)
  case case3 =>
    obtain ⟨⟨u, after⟩, hu, heq⟩ := Option.map_eq_some_iff.1 h
    simp only [Prod.mk.injEq, Token.text.injEq] at heq
    exact isUnpaired_of_readText? (hs.suffix (List.suffix_cons _ _)) (heq.1 ▸ hu)
  case case4 => simp at h
  case case5 => exact (readNumber?_ne_text h).elim
  case case6 => exact (readNumber?_ne_text h).elim

theorem isUnpaired_of_mem_tokens {s t : Text} (hs : s.IsScalar) (h : .text t ∈ tokens s) :
    t.IsUnpaired := by
  obtain ⟨r, rest, hr, hread⟩ := exists_readToken?_of_mem_tokens h (by simp)
  exact isUnpaired_of_readToken? (hs.suffix hr) hread

/-! ## Numbers -/

/-- No character that a number could go on with is next. -/
def EndsNumber (rest : Text) : Prop :=
  ∀ c ∈ rest.head?, isDigit c = false ∧ c ≠ 46 ∧ c ≠ 101 ∧ c ≠ 69

theorem endsNumber_nil : EndsNumber [] := by simp [EndsNumber]

theorem EndsNumber.readFraction (h : EndsNumber rest) : readFraction rest = none := by
  rw [readFraction_eq_none_iff]
  rintro behind rfl
  simp [EndsNumber] at h

theorem EndsNumber.readExponent (h : EndsNumber rest) : readExponent rest = none := by
  rw [readExponent_eq_none_iff]
  rintro c behind rfl hc
  simp only [EndsNumber, List.head?_cons, Option.mem_some_iff, forall_eq'] at h
  tauto

theorem isDigit_eq_true_iff {c : Nat} : isDigit c = true ↔ 48 ≤ c ∧ c ≤ 57 := by
  simp [isDigit]

theorem ofDigit_of_lt {d : Nat} (h : d < 10) : Text.ofDigit d = 48 + d := by
  rw [Text.ofDigit, if_pos h]

theorem isDigit_ofDigit {d : Nat} (h : d < 10) : isDigit (Text.ofDigit d) = true := by
  rw [ofDigit_of_lt h, isDigit_eq_true_iff]
  omega

/-- Digits that are written are read, up to where no digit follows. -/
theorem readDigits_map_ofDigit {ds : List Nat} (hds : ∀ d ∈ ds, d < 10)
    (hrest : ∀ c ∈ rest.head?, isDigit c = false) :
    readDigits (ds.map Text.ofDigit ++ rest) = (ds, rest) := by
  have hall : ∀ c ∈ ds.map Text.ofDigit, isDigit c = true := by
    simpa using fun d hd => isDigit_ofDigit (hds d hd)
  have hnone : rest.takeWhile isDigit = [] ∧ rest.dropWhile isDigit = rest := by
    cases rest with
    | nil => simp
    | cons c rest => simp [hrest c (by simp)]
  have hvalues : (ds.map Text.ofDigit).map (· - 48) = ds := by
    rw [List.map_map]
    have hvalue (d : Nat) (hd : d ∈ ds) : ((· - 48) ∘ Text.ofDigit) d = id d := by
      simp [ofDigit_of_lt (hds d hd)]
    rw [List.map_congr_left hvalue, List.map_id]
  simp only [readDigits, List.takeWhile_append_of_pos hall, List.dropWhile_append_of_pos hall,
    hnone, List.append_nil, hvalues]

/-- The integer part of a number is read if it does not start with a zero, or is nothing else. -/
theorem readInteger?_map_ofDigit {ds : List Nat} (hds : ∀ d ∈ ds, d < 10) (hne : ds ≠ [])
    (hzero : ∀ es, ds = 0 :: es → es = []) (hrest : ∀ c ∈ rest.head?, isDigit c = false) :
    readInteger? (ds.map Text.ofDigit ++ rest) = some (ds, rest) := by
  obtain ⟨d, es, rfl⟩ := List.exists_cons_of_ne_nil hne
  by_cases hd : d = 0
  · subst hd
    obtain rfl := hzero es rfl
    simp [ofDigit_of_lt, readInteger?]
  · rw [readInteger?]
    · rw [readDigits_map_ofDigit hds hrest]
    · intro behind hbehind
      rw [List.map_cons, List.cons_append, ofDigit_of_lt (hds d (by simp))] at hbehind
      have hhead := (List.cons.inj hbehind).1
      simp at hhead
      exact hd hhead

theorem readInteger?_ofNat (n : Nat) (hrest : ∀ c ∈ rest.head?, isDigit c = false) :
    readInteger? (Text.ofNat n ++ rest) = some (Text.digits n, rest) :=
  readInteger?_map_ofDigit (fun _ => Text.lt_ten_of_mem_digits) (Text.digits_ne_nil n)
    (fun es hes => by
      rw [Text.eq_zero_of_digits_eq_cons_zero hes, Text.digits_zero] at hes
      simpa using hes.symm)
    hrest

theorem mark?_of_isDigit (hc : isDigit c = true) : mark? c = none := by
  rw [isDigit_eq_true_iff] at hc
  grind [mark?]

/-- A number without a sign starts with a digit. -/
theorem readToken?_of_isDigit (hc : isDigit c = true) :
    readToken? (c :: rest) = readNumber? false (c :: rest) := by
  have hmark := mark?_of_isDigit hc
  rw [isDigit_eq_true_iff] at hc
  have hword : readWord? (c :: rest) = none := readWord?_cons_eq_none (by grind)
  simp only [readToken?, hmark, hword]
  rw [if_neg (by grind), if_neg (by grind)]

/-- A number with a sign starts with a digit behind it. -/
theorem readToken?_minus_of_isDigit (hc : isDigit c = true) :
    readToken? (45 :: c :: rest) = readNumber? true (c :: rest) := by
  have hword : readWord? (45 :: c :: rest) = none := by
    refine readWord?_minus_eq_none fun behind hbehind => ?_
    simp only [List.cons.injEq] at hbehind
    rw [hbehind.1, isDigit_eq_true_iff] at hc
    omega
  simp [readToken?, mark?, hword]

/-- A number of which nothing but digits is left is an integer. -/
theorem readNumber?_of_readInteger? {negative : Bool} {s : Text} {ds : List Nat}
    (h : readInteger? s = some (ds, rest)) (hrest : EndsNumber rest) :
    readNumber? negative s = some (integerToken negative ds, rest) := by
  simp [readNumber?, h, hrest.readFraction, hrest.readExponent]

theorem readToken?_ofInt {n : Int} (hn : (Value.int n).isLeaf = true) (hrest : EndsNumber rest) :
    readToken? (Text.ofInt n ++ rest) = some (.leaf (.int n), rest) := by
  have hread := readInteger?_ofNat n.natAbs fun c hc => (hrest c hc).1
  have htoken (negative : Bool) : integerToken negative (Text.digits n.natAbs) =
      .leaf (.int (Binary64.signed negative n.natAbs)) := by
    simp only [Value.isLeaf, decide_eq_true_eq] at hn
    rw [integerToken, if_pos hn, Text.natOfDigits_digits]
  obtain ⟨d, es, hdigits⟩ := List.exists_cons_of_ne_nil (Text.digits_ne_nil n.natAbs)
  have hd : isDigit (Text.ofDigit d) = true :=
    isDigit_ofDigit (Text.lt_ten_of_mem_digits (hdigits ▸ List.mem_cons_self))
  have htext : Text.ofNat n.natAbs ++ rest = Text.ofDigit d :: (es.map Text.ofDigit ++ rest) := by
    simp [Text.ofNat, hdigits]
  rw [Text.ofInt]
  split
  case isTrue hneg =>
    rw [List.cons_append, htext, readToken?_minus_of_isDigit hd, ← htext,
      readNumber?_of_readInteger? hread hrest, htoken]
    simp only [Binary64.signed, if_true]
    congr 4
    omega
  case isFalse hneg =>
    rw [htext, readToken?_of_isDigit hd, ← htext, readNumber?_of_readInteger? hread hrest, htoken]
    simp only [Binary64.signed]
    congr 4
    simp
    omega

end Json

end PottsOracle
