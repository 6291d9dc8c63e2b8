import PottsOracle.Proofs.Arith.Values
import PottsOracle.Proofs.Settings.RoundTrip

/-!
# Settings that are in range

Whatever document settings are read from, their sizes, probabilities and names are in range
(`Settings.inRange_of_ofDocument`): of a number that passes its check the exact value is bounded. A
size is checked by what it must not be, but only integers get that far. A probability is checked by
what it must be. The noise is a float that is checked by what it must not be, and what is no number
is not less than zero: it passes, and is the only noise out of range that does.
-/

namespace PottsOracle

/-! ## Numbers -/

namespace Number

variable {x : Number} {k : ℕ}

/-- The exact value of a number that is finite. -/
def value? : Number → Option Rat
  | bool b => some b.toNat
  | int n => some n
  | float x => Binary64.value? x

/-- A float that stands for no number. -/
def IsNotANumber : Number → Prop
  | bool _ | int _ => False
  | float x => Binary64.decode x = .notANumber

instance : DecidablePred IsNotANumber
  | bool _ | int _ => inferInstanceAs (Decidable False)
  | float x => inferInstanceAs (Decidable (Binary64.decode x = .notANumber))

/-- The float that is larger than all others. -/
def IsInfinity : Number → Prop
  | bool _ | int _ => False
  | float x => Binary64.decode x = .infinite false

instance : DecidablePred IsInfinity
  | bool _ | int _ => inferInstanceAs (Decidable False)
  | float x => inferInstanceAs (Decidable (Binary64.decode x = .infinite false))

/-- A number is at least zero. -/
def IsNonneg (x : Number) : Prop := x.IsInfinity ∨ ∃ q, x.value? = some q ∧ 0 ≤ q

/-- An integer is as large as its check says. -/
lemma exists_value_of_isInteger (hx : x.IsInteger) (hk : x.lessThan k = false) :
    ∃ n : ℤ, x.value? = some (n : ℚ) ∧ k ≤ n := by
  cases x with
  | bool b =>
    refine ⟨b.toNat, by simp [value?], ?_⟩
    have hle : k ≤ b.toNat := by simpa [lessThan] using hk
    exact_mod_cast hle
  | int n =>
    refine ⟨n, rfl, ?_⟩
    simpa [lessThan] using hk
  | float x => cases hx

/-- What lies between zero and one has a value there: neither an infinity does nor what is no
number. -/
lemma exists_value_of_inUnit (h : x.inUnit = true) : ∃ q, x.value? = some q ∧ 0 ≤ q ∧ q ≤ 1 := by
  cases x with
  | bool b => cases b <;> simp [value?]
  | int n =>
    have hn : 0 ≤ n ∧ n ≤ 1 := by simpa [inUnit] using h
    refine ⟨n, rfl, ?_, ?_⟩
    · exact_mod_cast hn.1
    · exact_mod_cast hn.2
  | float x =>
    have hx : Scalar.le 0 x = true ∧ Scalar.le x 1 = true := by simpa [inUnit] using h
    exact Binary64.exists_value_of_le Binary64.value?_zero Binary64.value?_one hx.1 hx.2

/-- A number is not less than zero if it is at least zero or no number at all. -/
lemma lessThan_zero_eq_false_iff : x.lessThan 0 = false ↔ x.IsNotANumber ∨ x.IsNonneg := by
  cases x with
  | bool b => simp [lessThan, IsNotANumber, IsNonneg, IsInfinity, value?]
  | int n => simp [lessThan, IsNotANumber, IsNonneg, IsInfinity, value?]
  | float x =>
    have hzero : Binary64.value? (Scalar.ofNat 0) = some 0 := by decide +kernel
    exact Binary64.lt_eq_false_iff_of_value hzero

lemma not_isNonneg_of_isNotANumber (h : x.IsNotANumber) : ¬ x.IsNonneg := by
  cases x with
  | bool b => cases h
  | int n => cases h
  | float x =>
    have hnone : Binary64.decode x = .notANumber := h
    rintro (hinfinity | ⟨q, hq, -⟩)
    · rw [IsInfinity, hnone] at hinfinity
      cases hinfinity
    · rw [value?, Binary64.value?, hnone] at hq
      cases hq

end Number

/-! ## Settings -/

/-- The settings of a problem are in range. -/
structure ProblemSettings.InRange (s : ProblemSettings) : Prop where
  threads : ∃ n : ℤ, s.threads.value? = some (n : ℚ) ∧ 1 ≤ n
  solver : (s.solver.name, s.solver) ∈ ProblemFields.solvers

/-- The settings of the data are in range, up to the noise. -/
structure DataSettings.InRange (s : DataSettings) : Prop where
  samples : ∃ n : ℤ, s.samples.value? = some (n : ℚ) ∧ 1 ≤ n
  nodes : ∃ n : ℤ, s.nodes.value? = some (n : ℚ) ∧ 1 ≤ n
  nodeDims : ∃ n : ℤ, s.nodeDims.value? = some (n : ℚ) ∧ 2 ≤ n
  edgeDims : ∃ n : ℤ, s.edgeDims.value? = some (n : ℚ) ∧ 1 ≤ n
  pSame : ∃ q, s.pSame.value? = some q ∧ 0 ≤ q ∧ q ≤ 1
  pDiff : ∃ q, s.pDiff.value? = some q ∧ 0 ≤ q ∧ q ≤ 1
  representation : (s.representation.name, s.representation) ∈ DataFields.representations

namespace Settings

variable {t : Text} {s : Settings}

/-- Whatever document settings are read from, they are in range, and so is the noise if and only if
it is a number. -/
theorem inRange_of_ofDocument (h : ofDocument t = .ok s) :
    s.problem.InRange ∧ s.data.InRange ∧
      (s.data.noise.IsNonneg ↔ ¬ s.data.noise.IsNotANumber) := by
  obtain ⟨hproblem, hdata, -⟩ := isTyped_of_ofDocument h
  refine ⟨?_, ?_, ?_⟩
  · refine ⟨Number.exists_value_of_isInteger hproblem s.problem.one_le_threads, ?_⟩
    exact List.mem_map_of_mem (Solver.mem_values s.problem.solver)
  · exact {
      samples := Number.exists_value_of_isInteger hdata.samples s.data.one_le_samples
      nodes := Number.exists_value_of_isInteger hdata.nodes s.data.one_le_nodes
      nodeDims := Number.exists_value_of_isInteger hdata.nodeDims s.data.two_le_nodeDims
      edgeDims := Number.exists_value_of_isInteger hdata.edgeDims s.data.one_le_edgeDims
      pSame := Number.exists_value_of_inUnit s.data.pSame_inUnit
      pDiff := Number.exists_value_of_inUnit s.data.pDiff_inUnit
      representation := List.mem_map_of_mem (FeatureKind.mem_values s.data.representation) }
  · have hnoise := Number.lessThan_zero_eq_false_iff.1 s.data.zero_le_noise
    constructor
    · intro hnonneg hnone
      exact Number.not_isNonneg_of_isNotANumber hnone hnonneg
    · exact hnoise.resolve_left

lemma exists_of_any_ofDocument {p : Settings → Bool} (h : (ofDocument t).toOption.any p = true) :
    ∃ s, ofDocument t = .ok s ∧ p s = true := by
  cases hs : ofDocument t with
  | error e =>
    rw [hs] at h
    cases h
  | ok s =>
    rw [hs] at h
    exact ⟨s, rfl, h⟩

/-- An infinite noise is accepted, and a zero with a sign is a probability. -/
theorem inRange_of_ofDocument_infinite_noise :
    ∃ s, ofDocument (Text.ofString
        "\x7b\"data\": \x7b\"noise\": Infinity, \"p_diff\": -0.0\x7d\x7d") = .ok s ∧
      s.data.noise.IsNonneg ∧ ∃ q, s.data.pDiff.value? = some q ∧ 0 ≤ q ∧ q ≤ 1 := by
  obtain ⟨s, h, hnoise⟩ := exists_of_any_ofDocument
    (t := Text.ofString "\x7b\"data\": \x7b\"noise\": Infinity, \"p_diff\": -0.0\x7d\x7d")
    (p := fun s => !decide s.data.noise.IsNotANumber) (by decide +kernel)
  obtain ⟨-, hdata, hnonneg⟩ := inRange_of_ofDocument h
  exact ⟨s, h, hnonneg.2 (by simpa using hnoise), hdata.pDiff⟩

/-- What is no number passes as a noise. -/
theorem exists_noise_isNotANumber :
    ∃ s, ofDocument (Text.ofString "\x7b\"data\":\x7b\"noise\":NaN\x7d\x7d") = .ok s ∧
      s.data.noise.IsNotANumber ∧ ¬ s.data.noise.IsNonneg := by
  obtain ⟨s, h, hnoise⟩ := exists_of_any_ofDocument
    (t := Text.ofString "\x7b\"data\":\x7b\"noise\":NaN\x7d\x7d")
    (p := fun s => decide s.data.noise.IsNotANumber) (by decide +kernel)
  have hnone : s.data.noise.IsNotANumber := of_decide_eq_true hnoise
  exact ⟨s, h, hnone, Number.not_isNonneg_of_isNotANumber hnone⟩

end Settings

end PottsOracle
