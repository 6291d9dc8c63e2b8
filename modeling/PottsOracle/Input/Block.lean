import PottsOracle.Input.Number

/-!
# Blocks of numbers

Lists of lists … of numbers form a block if they are of one shape: at every depth all lists are
equally long.  A value that is no list is a block without any extent.  There may be up to
sixty-four extents.

A block is a row of smaller blocks along its first extent, and entries can be selected from it by
marks that stand for such smaller blocks.
-/

namespace PottsOracle

/-- Entries in row order with the extents of the block, outermost first. -/
structure Block (α : Type) where
  shape : List Nat
  entries : List α
  deriving DecidableEq, Repr

namespace Block

variable {α β : Type}

/-- A function of every entry. -/
def map (f : α → β) (b : Block α) : Block β := ⟨b.shape, b.entries.map f⟩

/-- Entries that are equally long parts of a list, one after the other. -/
def parts (size : Nat) (count : Nat) (entries : List α) : List (List α) :=
  let table := entries.toArray
  (List.range count).map fun i => (table.extract (i * size) (i * size + size)).toList

/-- The number of entries that a shape has room for. -/
def capacity (shape : List Nat) : Nat := shape.foldl (· * ·) 1

/-- The smaller blocks along the first extent, each as its entries.  Without an extent there are
none. -/
def rows (b : Block α) : List (List α) :=
  match b.shape with
  | [] => []
  | count :: inner => parts (capacity inner) count b.entries

/-- Marks can select from a shape: they have no more extents, and each of them is the same as in the
shape, or nothing. -/
def Marks (marks shape : List Nat) : Prop :=
  marks.length ≤ shape.length ∧ ∀ p ∈ marks.zip shape, p.1 = 0 ∨ p.1 = p.2

instance (marks shape : List Nat) : Decidable (Marks marks shape) :=
  inferInstanceAs (Decidable (_ ∧ _))

/-- The entries that are marked, in order.  A mark stands for all entries that share its place. -/
def select? (b : Block α) (marks : Block Bool) : Option (List α) :=
  if Marks marks.shape b.shape then
    let size := capacity (b.shape.drop marks.shape.length)
    some ((marks.entries.zip (parts size marks.entries.length b.entries)).flatMap
      fun (mark, part) => if mark then part else [])
  else none

end Block

/-- A shape between round brackets, a lone extent with a comma behind it. -/
def showShape (shape : List Nat) : String :=
  match shape with
  | [n] => s!"({n},)"
  | _ => "(" ++ ", ".intercalate (shape.map toString) ++ ")"

namespace Value

mutual

/-- The lengths of nested lists, outermost first, if they are all of one shape. -/
def nesting? : Value → Option (List Nat)
  | .list [] => some [0]
  | .list (v :: vs) => do
    let inner ← v.nesting?
    if nestingsEqual inner vs then some ((vs.length + 1) :: inner) else none
  | _ => some []

/-- Every value has a given nesting. -/
def nestingsEqual (shape : List Nat) : List Value → Bool
  | [] => true
  | v :: vs => v.nesting? == some shape && nestingsEqual shape vs

end

/-- The most extents of a block. -/
def maxExtents : Nat := 64

/-- The shape of nested lists, if they form a block. -/
def shape? (v : Value) : Option (List Nat) := v.nesting?.filter (·.length ≤ maxExtents)

mutual

/-- The values in nested lists that are no lists themselves, from left to right. -/
def leaves : Value → List Value
  | .list items => leavesOfItems items
  | v => [v]

/-- The leaves of several values. -/
def leavesOfItems : List Value → List Value
  | [] => []
  | v :: vs => v.leaves ++ leavesOfItems vs

end

/-- Nested lists as a block whose entries are read one by one.  A ragged nesting is reported before
any entry is read. -/
def toBlock {α : Type} (read : Value → Except InputError α) (v : Value) :
    Except InputError (Block α) :=
  match v.shape? with
  | none => .error .malformed
  | some shape => (v.leaves.mapM read).map (⟨shape, ·⟩)

/-- A value as a block of floats. -/
def toFloats (v : Value) : Except InputError (Block Float) := v.toBlock Input.entry

/-- The numbers of a value in row order, whatever its shape. -/
def toNumbers (v : Value) : Except InputError (List Float) := v.toFloats.map (·.entries)

/-- The items that a value consists of when it is gone through: those of a list, the characters of a
text, the keys of a record. -/
def items : Value → Except InputError (List Value)
  | .list items => .ok items
  | .text t => .ok (t.map fun c => .text [c])
  | .record fields => .ok (fields.map fun (k, _) => .text k)
  | .null | .bool _ | .int _ | .float _ => .error .wrongType

/-- A value that is not nothing: nothing is a zero, a missing value, and a text, list or record that
is empty. -/
def isSomething : Value → Bool
  | .null => false
  | .bool b => b
  | .int n => n != 0
  | .float x => !(Scalar.eq x 0)
  | .text t => t ≠ []
  | .list items => !items.isEmpty
  | .record fields => !fields.isEmpty

/-- A value as a block of marks: an entry is a mark unless it is nothing. -/
def toMarks (v : Value) : Except InputError (Block Bool) := v.toBlock fun x => .ok x.isSomething

end Value

/-- Pairs of consecutive entries; a last entry without a partner is malformed. -/
def pairUp {α : Type} : List α → Except InputError (List (α × α))
  | [] => .ok []
  | [_] => .error .malformed
  | a :: b :: rest => (pairUp rest).map ((a, b) :: ·)

end PottsOracle
