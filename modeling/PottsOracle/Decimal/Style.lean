import PottsOracle.Decimal.Shortest

/-!
# Decimal styles

How the digits of a float are written: with the point in its place while the number is neither too
large nor too small, else with a power of ten.  Also the form with a fixed count of places.
-/

namespace PottsOracle.Decimal

/-- The choices of a style for floats. -/
structure Style where
  /-- The least point that is written in place. -/
  leastPoint : Int
  /-- The greatest point that is written in place. -/
  greatestPoint : Int
  /-- The least count of digits in an exponent. -/
  exponentWidth : Nat
  /-- The word for what is no number. -/
  notANumber : Text
  /-- The word for an infinity, without its sign. -/
  infinite : Text

/-- The style of messages and answers: in place from 0.0001 up to, not including, 10^16. -/
def plain : Style where
  leastPoint := -3
  greatestPoint := 16
  exponentWidth := 2
  notANumber := Text.ofString "nan"
  infinite := Text.ofString "inf"

/-- The style of documents: its words for special numbers are capitalised. -/
def document : Style :=
  { plain with notANumber := Text.ofString "NaN", infinite := Text.ofString "Infinity" }

/-- Digits with the point in its place; at least one digit stands on each side of it. -/
def inPlace (d : Digits) : Text :=
  let digits := d.digits.map Text.ofDigit
  let count : Int := digits.length
  if d.point ≤ 0 then Text.ofString "0." ++ List.replicate (-d.point).toNat 48 ++ digits
  else if count ≤ d.point then
    digits ++ List.replicate (d.point - count).toNat 48 ++ Text.ofString ".0"
  else digits.take d.point.toNat ++ 46 :: digits.drop d.point.toNat

/-- Digits with a power of ten: one digit before the point, and no point after a lone digit. -/
def withExponent (width : Nat) (d : Digits) : Text :=
  let exponent := d.point - 1
  let size := Text.ofNat exponent.natAbs
  let mark : CodePoint := if exponent < 0 then 45 else 43
  let leading := match d.digits.map Text.ofDigit with
    | [] => []
    | [c] => [c]
    | c :: cs => c :: 46 :: cs
  leading ++ 101 :: mark :: List.replicate (width - size.length) 48 ++ size

/-- A float in a style. -/
def write (style : Style) (x : Float) : Text :=
  let sign (negative : Bool) : Text := if negative then [45] else []
  match Binary64.decode x with
  | .notANumber => style.notANumber
  | .infinite negative => sign negative ++ style.infinite
  | .finite negative 0 _ => sign negative ++ Text.ofString "0.0"
  | .finite negative significand exponent =>
    let (n, d) := Binary64.fraction significand exponent
    let digits := shortest (Float.abs x) n d
    sign negative ++
      if style.leastPoint ≤ digits.point ∧ digits.point ≤ style.greatestPoint
      then inPlace digits else withExponent style.exponentWidth digits

/-- A float with a fixed count of places after the point, rounded to nearest and to even. -/
def writeFixed (places : Nat) (x : Float) : Text :=
  match Binary64.decode x with
  | .notANumber => plain.notANumber
  | .infinite negative => (if negative then [45] else []) ++ plain.infinite
  | .finite negative significand exponent =>
    let (n, d) := Binary64.fraction significand exponent
    let scaled := (halfEven (n * Nat.pow 10 places) d).toNat
    let digits := Text.ofNat scaled
    let padded := List.replicate (places + 1 - digits.length) 48 ++ digits
    let whole := padded.length - places
    (if negative then [45] else []) ++ padded.take whole ++ 46 :: padded.drop whole

end PottsOracle.Decimal
