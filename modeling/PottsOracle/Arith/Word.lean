/-!
# Words

A word has sixty-four bits.  With a sign it holds the integers from `-2 ^ 63` to `2 ^ 63 - 1`,
without one those from zero to `2 ^ 64 - 1`.  An integer that a word cannot hold is reduced to the
one it can hold that differs by a multiple of `2 ^ 64`.
-/

namespace PottsOracle.Word

/-- A word with a sign holds an integer. -/
def HoldsSigned (n : Int) : Prop := -0x8000000000000000 ≤ n ∧ n < 0x8000000000000000

instance (n : Int) : Decidable (HoldsSigned n) := inferInstanceAs (Decidable (_ ∧ _))

/-- A word without a sign holds an integer. -/
def HoldsUnsigned (n : Int) : Prop := 0 ≤ n ∧ n < 0x10000000000000000

instance (n : Int) : Decidable (HoldsUnsigned n) := inferInstanceAs (Decidable (_ ∧ _))

/-- One of the two kinds of words holds an integer. -/
def Holds (n : Int) : Prop := HoldsSigned n ∨ HoldsUnsigned n

instance (n : Int) : Decidable (Holds n) := inferInstanceAs (Decidable (_ ∨ _))

/-- An integer reduced to a word with a sign. -/
def signed (n : Int) : Int := n.bmod 0x10000000000000000

/-- An integer reduced to a word without a sign. -/
def unsigned (n : Int) : Int := n % 0x10000000000000000

end PottsOracle.Word
