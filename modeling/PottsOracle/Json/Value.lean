import PottsOracle.Arith.Binary64
import PottsOracle.Text.Basic

/-!
# Values

What a document denotes: nothing, a truth value, an integer of any size, a float, a text, a list or
a record.  Integers and floats stay apart, and the fields of a record keep their order.
-/

namespace PottsOracle

/-- A value of a document. -/
inductive Value where
  | null
  | bool (b : Bool)
  | int (n : Int)
  | float (x : Float)
  | text (t : Text)
  | list (items : List Value)
  | record (fields : List (Text × Value))
  deriving Inhabited

/-- The fields of a record, in their order. -/
abbrev Fields := List (Text × Value)

namespace Fields

/-- The value of a field. -/
def get? (fields : Fields) (key : Text) : Option Value :=
  (fields.find? fun (k, _) => k == key).map (·.2)

/-- Gives a field a value: in its place if it is there already, else at the end. -/
def set : Fields → Text → Value → Fields
  | [], key, v => [(key, v)]
  | (k, w) :: rest, key, v => if k = key then (k, v) :: rest else (k, w) :: set rest key v

/-- The names of the fields. -/
def keys (fields : Fields) : List Text := fields.map (·.1)

end Fields

namespace Value

/-- A record whose keys are given as strings. -/
def ofFields (fields : List (String × Value)) : Value :=
  .record (fields.map fun (k, v) => (Text.ofString k, v))

/-- A text given as a string. -/
def ofString (s : String) : Value := .text (Text.ofString s)

/-- Adds a field before the first field with a larger key. -/
def insertSorted (key : Text) (v : Value) : Fields → Fields
  | [] => [(key, v)]
  | (k, w) :: rest =>
    if Text.le key k then (key, v) :: (k, w) :: rest else (k, w) :: insertSorted key v rest

mutual

/-- The same value with the fields of every record in the order of their keys. -/
def sorted : Value → Value
  | .list items => .list (sortedItems items)
  | .record fields => .record (sortedFields fields)
  | v => v

/-- The items of a list, each one sorted. -/
def sortedItems : List Value → List Value
  | [] => []
  | v :: vs => v.sorted :: sortedItems vs

/-- The fields of a record in the order of their keys, each value sorted. -/
def sortedFields : Fields → Fields
  | [] => []
  | (k, v) :: rest => insertSorted k v.sorted (sortedFields rest)

end

end Value

end PottsOracle
