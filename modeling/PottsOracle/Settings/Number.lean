import PottsOracle.Input.Number

/-!
# Numbers in settings

A number in settings keeps the form in which it is written: a truth value, an integer and a float
stay apart even if they are equal, because a fingerprint tells them apart.
-/

namespace PottsOracle

/-- A number with its form. -/
inductive Number where
  | bool (b : Bool)
  | int (n : Int)
  | float (x : Float)

namespace Number

/-- The number that a value is. -/
def ofValue? : Value → Option Number
  | .bool b => some (bool b)
  | .int n => some (int n)
  | .float x => some (float x)
  | .null | .text _ | .list _ | .record _ => none

/-- A number as a value. -/
def toValue : Number → Value
  | bool b => .bool b
  | int n => .int n
  | float x => .float x

@[simp]
theorem ofValue?_toValue (x : Number) : ofValue? x.toValue = some x := by
  cases x <;> rfl

/-- A number is less than a natural number. -/
def lessThan (x : Number) (k : Nat) : Bool :=
  match x with
  | bool b => b.toNat < k
  | int n => n < k
  | float x => Scalar.lt x (Scalar.ofNat k)

/-- A number lies between zero and one, ends included. -/
def inUnit : Number → Bool
  | bool _ => true
  | int n => 0 ≤ n && n ≤ 1
  | float x => Scalar.le 0 x && Scalar.le x 1

/-- A number as a count; a float is none. -/
def count : Number → Except InputError Nat
  | bool b => .ok b.toNat
  | int n => .ok n.toNat
  | float _ => .error .wrongType

/-- A number as the length of something; only an integer is one. -/
def length : Number → Except InputError Nat
  | int n => .ok n.toNat
  | bool _ | float _ => .error .wrongType

/-- The float nearest to a number. -/
def toFloat (x : Number) : Except InputError Float := Input.float x.toValue

end Number

end PottsOracle
