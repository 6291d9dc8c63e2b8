import PottsOracle.Arith.HalfEven

/-!
# Binary floating point

A `Float` is a sign, a significand and a power of two, or an infinity, or no number at all.
`Binary64.decode` takes it apart; everything that needs a float's exact value (rounding it to an
integer, printing it in decimal) works on the parts with natural numbers.
-/

namespace PottsOracle

namespace Binary64

/-- A float read as a number. -/
inductive Parts where
  /-- `significand * 2 ^ exponent`, with a sign that a zero has too. -/
  | finite (negative : Bool) (significand : Nat) (exponent : Int)
  | infinite (negative : Bool)
  | notANumber
  deriving DecidableEq, Repr

/-- The parts of a float: 52 bits of fraction, 11 bits of exponent and a sign bit. -/
def decode (x : Float) : Parts :=
  let bits : Nat := x.toBits.toNat
  let fraction : Nat := bits % Nat.pow 2 52
  let field : Nat := bits / Nat.pow 2 52 % Nat.pow 2 11
  let negative := bits / Nat.pow 2 63 == 1
  if field = 2047 then
    if fraction = 0 then .infinite negative else .notANumber
  else if field = 0 then .finite negative fraction (-1074)
  else .finite negative (Nat.pow 2 52 + fraction) ((field : Int) - 1075)

/-- The float that is larger than all others. -/
def infinity : Float := Float.ofBits 0x7FF0000000000000

/-- The float that is no number. -/
def notANumber : Float := Float.ofBits 0x7FF8000000000000

/-- A numerator and a denominator of `significand * 2 ^ exponent`. -/
def fraction (significand : Nat) (exponent : Int) : Nat × Nat :=
  if 0 ≤ exponent then (significand * Nat.pow 2 exponent.toNat, 1)
  else (significand, Nat.pow 2 (-exponent).toNat)

/-- An integer with a given sign. -/
def signed (negative : Bool) (n : Nat) : Int := if negative then -(n : Int) else n

/-- The integer nearest to a float, a half going to the even one. -/
def nearest (x : Float) : Except Unroundable Int :=
  match decode x with
  | .notANumber => .error .notANumber
  | .infinite _ => .error .infinite
  | .finite negative significand exponent =>
    let (n, d) := fraction significand exponent
    .ok (halfEven (signed negative n) d)

/-- The integer part of a float: its fraction is cut off. -/
def truncate (x : Float) : Except Unroundable Int :=
  match decode x with
  | .notANumber => .error .notANumber
  | .infinite _ => .error .infinite
  | .finite negative significand exponent =>
    let (n, d) := fraction significand exponent
    .ok (signed negative (n / d))

/-- A float is below an integer, in exact arithmetic. -/
def isBelow (x : Float) (k : Int) : Bool :=
  match decode x with
  | .notANumber => false
  | .infinite negative => negative
  | .finite negative significand exponent =>
    let (n, d) := fraction significand exponent
    signed negative n < k * d

end Binary64

/-- Floating point: sums and products round, and comparisons with what is no number fail. -/
instance : Scalar Float where
  zero := Float.ofBits 0
  one := Float.ofBits 0x3FF0000000000000
  lt := Float.lt
  eq := Float.beq
  abs := Float.abs
  ofNat n := Float.ofScientific n false 0
  nearest := Binary64.nearest

end PottsOracle
