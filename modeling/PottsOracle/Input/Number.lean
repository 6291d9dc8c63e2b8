import PottsOracle.Arith.Word
import PottsOracle.Decimal.Shortest
import PottsOracle.Json.Value
import PottsOracle.Text.Digit

/-!
# Numbers given as values

Wherever a number is expected, a truth value, an integer, a float or a text that spells a number
will do.  A spelled number may have blanks around it, single underscores between its digits, and
digits of any script.
-/

namespace PottsOracle

/-- Why a given value cannot be used. -/
inductive InputError where
  /-- It has a fitting type but does not denote what is expected. -/
  | malformed
  /-- It has a type that does not fit. -/
  | wrongType
  /-- It denotes a number that is too large. -/
  | tooLarge
  deriving DecidableEq, Repr

/-- A float that has no integer part is malformed input if it is no number, too large else. -/
def Unroundable.asInput : Unroundable → InputError
  | .notANumber => .malformed
  | .infinite => .tooLarge

namespace Input

/-! ## Spelled numbers -/

/-- A character of a spelled number: digits of every script become those of ASCII. -/
def normalised (c : CodePoint) : CodePoint :=
  match Text.digitValue? c with
  | some d => 48 + d
  | none => c

/-- A digit in base ten. -/
def isDigit (c : CodePoint) : Bool := 48 ≤ c && c ≤ 57

/-- Splits a sign off: whether it is a minus, and the rest. -/
def splitSign : Text → Bool × Text
  | 45 :: rest => (true, rest)
  | 43 :: rest => (false, rest)
  | rest => (false, rest)

/-- A text without its underscores; each has to stand between two digits. -/
def withoutUnderscores? : Text → Option Text
  | a :: 95 :: b :: rest =>
    if isDigit a && isDigit b then (withoutUnderscores? (b :: rest)).map (a :: ·) else none
  | c :: rest => if c = 95 then none else (withoutUnderscores? rest).map (c :: ·)
  | [] => some []

/-- The number that ASCII digits stand for. -/
def natOfText (t : Text) : Nat := t.foldl (fun n c => 10 * n + (c - 48)) 0

/-- The letters of a text made small. -/
def lowercase (t : Text) : Text := t.map fun c => if 65 ≤ c ∧ c ≤ 90 then c + 32 else c

/-- Digits that spell an integer: there are some, and not too many. -/
def AreInteger (digits : Text) : Prop :=
  digits ≠ [] ∧ digits.all isDigit = true ∧ digits.length ≤ Text.maxIntegerDigits

instance (digits : Text) : Decidable (AreInteger digits) :=
  inferInstanceAs (Decidable (_ ∧ _ ∧ _))

/-- The integer that a text spells. -/
def spelledInt? (t : Text) : Option Int := do
  let (negative, rest) := splitSign ((Text.trimmed t).map normalised)
  let digits ← withoutUnderscores? rest
  if AreInteger digits then pure (Binary64.signed negative (natOfText digits)) else none

/-- The power of ten that a text spells behind a significand: nothing means one. -/
def spelledExponent? : Text → Option Int
  | [] => some 0
  | c :: rest =>
    let (negative, digits) := splitSign rest
    if (c = 101 ∨ c = 69) ∧ digits ≠ [] ∧ digits.all isDigit
    then some (Binary64.signed negative (natOfText digits)) else none

/-- The float that a text without a sign spells: digits with a point among them and a power of ten
behind them, or a word for what is not finite. -/
def spelledMagnitude? (t : Text) : Option Float :=
  let word := lowercase t
  if word = Text.ofString "inf" ∨ word = Text.ofString "infinity" then some Binary64.infinity
  else if word = Text.ofString "nan" then some Binary64.notANumber
  else do
    let t ← withoutUnderscores? t
    let whole := t.takeWhile isDigit
    let rest := t.dropWhile isDigit
    let (places, rest) := match rest with
      | 46 :: rest => (rest.takeWhile isDigit, rest.dropWhile isDigit)
      | rest => ([], rest)
    if whole ++ places = [] then none
    else
      let exponent ← spelledExponent? rest
      pure (Decimal.toFloat (natOfText (whole ++ places)) (exponent - places.length))

/-- The float that a text spells. -/
def spelledFloat? (t : Text) : Option Float :=
  let (negative, rest) := splitSign ((Text.trimmed t).map normalised)
  (spelledMagnitude? rest).map (Decimal.withSign negative)

/-! ## Numbers of any form -/

/-- The float nearest to an integer. -/
def floatOfInt (n : Int) : Except InputError Float :=
  let x := Decimal.toFloat n.natAbs 0
  if x == Binary64.infinity then .error .tooLarge else .ok (Decimal.withSign (n < 0) x)

/-- The float that a value denotes. -/
def float : Value → Except InputError Float
  | .bool b => .ok (if b then Scalar.ofNat 1 else Scalar.ofNat 0)
  | .int n => floatOfInt n
  | .float x => .ok x
  | .text t => (spelledFloat? t).elim (.error .malformed) .ok
  | .null | .list _ | .record _ => .error .wrongType

/-- The float that an entry of a block denotes: here a missing value is no number. -/
def entry : Value → Except InputError Float
  | .null => .ok Binary64.notANumber
  | v => float v

/-- The integer that a value denotes; the fraction of a float is cut off. -/
def int : Value → Except InputError Int
  | .bool b => .ok (if b then 1 else 0)
  | .int n => .ok n
  | .float x => (Binary64.truncate x).mapError Unroundable.asInput
  | .text t => (spelledInt? t).elim (.error .malformed) .ok
  | .null | .list _ | .record _ => .error .wrongType

/-- The place that a value denotes: only an integer or a truth value is one. -/
def place : Value → Except InputError Int
  | .bool b => .ok (if b then 1 else 0)
  | .int n => .ok n
  | .null | .float _ | .text _ | .list _ | .record _ => .error .wrongType

/-- The integer that a value denotes, if it fits into a word of sixty-four bits. -/
def word (v : Value) : Except InputError Int := do
  let n ← int v
  if Word.HoldsSigned n then .ok n else .error .tooLarge

example : spelledInt? (Text.ofString " -1_0 ") = some (-10) := by decide +kernel

end Input

end PottsOracle
