import PottsOracle.Arith.Binary64
import PottsOracle.Text.Basic

/-!
# The fewest digits that read back

A positive number is approximated on the grids of one, two, … seventeen decimal digits.  On each
grid it has two neighbours, and the first grid with a neighbour that reads back as the same float
gives the digits; of two such neighbours the nearer one counts.
-/

namespace PottsOracle.Decimal

/-- About how many digits a number has, from its digits in base two. -/
def roughLength (n : Nat) : Nat := n.log2 * 30103 / 100000

/-- The float nearest to `significand * 10 ^ exponent`.  Exponents far out of range are cut to an
infinity or to zero before any power is formed. -/
def toFloat (significand : Nat) (exponent : Int) : Float :=
  let places : Int := roughLength significand + exponent
  if significand = 0 ∨ places < -400 then Float.ofScientific 0 false 0
  else if 400 < places then Binary64.infinity
  else if 0 ≤ exponent then Float.ofScientific significand false exponent.toNat
  else Float.ofScientific significand true (-exponent).toNat

/-- A float with a given sign. -/
def withSign (negative : Bool) (x : Float) : Float := if negative then -x else x

/-- Decimal digits with the place of their point: `0.d₁d₂… * 10 ^ point`. -/
structure Digits where
  /-- The digits, the most significant one first. -/
  digits : List Nat
  /-- How many digits stand before the point. -/
  point : Int
  deriving DecidableEq, Repr

/-- How many digits the integer part of `n / d` has; not positive for a number below one. -/
def magnitude (n d : Nat) : Int :=
  let p : Int := (Text.digits n).length - (Text.digits d).length
  let reached := if 0 ≤ p then d * Nat.pow 10 p.toNat ≤ n else d ≤ n * Nat.pow 10 (-p).toNat
  if reached then p + 1 else p

/-- The two neighbours of `n / d` among the multiples of `10 ^ unit`, as multiples, the nearer
one first; of two equally near ones the even one is first. -/
def neighbours (n d : Nat) (unit : Int) : List Nat :=
  let (n, d) :=
    if 0 ≤ unit then (n, d * Nat.pow 10 unit.toNat) else (n * Nat.pow 10 (-unit).toNat, d)
  let below := n / d
  let rest := n % d
  if 2 * rest < d ∨ (2 * rest = d ∧ below % 2 = 0) then [below, below + 1]
  else [below + 1, below]

/-- The digits of `significand * 10 ^ unit` without zeros at the end. -/
def Digits.ofMultiple (significand : Nat) (unit : Int) : Digits :=
  let all := Text.digits significand
  ⟨(all.reverse.dropWhile (· == 0)).reverse, all.length + unit⟩

/-- The shortest digits of the positive number `n / d` that read back as the float `x`. -/
def shortest (x : Float) (n d : Nat) : Digits :=
  let place := magnitude n d
  let onGrid (count : Nat) : Option Digits :=
    let unit := place - count
    ((neighbours n d unit).find? fun m => toFloat m unit == x).map (Digits.ofMultiple · unit)
  match (List.range' 1 17).findSome? onGrid with
  | some digits => digits
  | none => Digits.ofMultiple n 0

end PottsOracle.Decimal
