import PottsOracle.Arith.Scalar

/-!
# Rounding a quotient to the nearest integer

`halfEven n d` is the integer nearest to `n / d`; a quotient that lies half way between two
integers goes to the even one.  The rationals round by it, and so do all decimal printers here.
-/

namespace PottsOracle

/-- The integer nearest to `n / d`; a half goes to the even neighbour. -/
def halfEven (n : Int) (d : Nat) : Int :=
  let q := n / d
  let r := n % d
  if 2 * r < d then q
  else if d < 2 * r then q + 1
  else if q % 2 = 0 then q
  else q + 1

example : [halfEven 1 2, halfEven 3 2, halfEven (-1) 2, halfEven (-3) 2, halfEven 7 4] =
    [0, 2, 0, -2, 2] := by decide

/-- The rationals: every operation is exact and every number can be rounded. -/
instance : Scalar Rat where
  zero := 0
  one := 1
  lt x y := decide (x < y)
  eq x y := decide (x = y)
  abs x := if x < 0 then -x else x
  ofNat n := n
  nearest x := .ok (halfEven x.num x.den)

end PottsOracle
