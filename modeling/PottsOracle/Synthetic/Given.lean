import PottsOracle.Input.Block
import PottsOracle.Synthetic.Draws

/-!
# Draws as they are given

A source of draws is given as a list of numbers, which is gone through again and again.  Where
nothing is given, every draw is one half.
-/

namespace PottsOracle

/-- The source that draws one half again and again. -/
def DrawSource.halves : DrawSource Float := .ofCycle [1 / Scalar.ofNat 2]

/-- The source of the numbers that a value lists. -/
def DrawSource.ofGiven (v : Value) : Except InputError (DrawSource Float) :=
  if v.isSomething then do
    let items ← v.items
    .ok (.ofCycle (← items.mapM Input.float))
  else .ok .halves

/-- Both sources, each of them as it is given. -/
def Draws.ofGiven (uniform normal : Value) : Except InputError (Draws Float) := do
  .ok ⟨← DrawSource.ofGiven uniform, ← DrawSource.ofGiven normal⟩

/-- The draws that are all one half. -/
def Draws.halves : Draws Float := ⟨.halves, .halves⟩

end PottsOracle
