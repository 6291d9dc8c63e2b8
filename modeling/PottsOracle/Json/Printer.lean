import PottsOracle.Json.Value
import PottsOracle.Decimal.Style

/-!
# Writing documents

A value is written in one of two forms: compactly, or with every item on a line of its own.  A
document holds printable ASCII alone: every other code point of a text is escaped.
-/

namespace PottsOracle.Json

/-- A code unit of sixteen bits, escaped. -/
def escapeUnit (u : Nat) : Text := Text.ofString "\\u" ++ Text.hex 4 u

/-- A code point as it stands in a text of a document. -/
def escape (c : CodePoint) : Text :=
  if c = 34 ∨ c = 92 then [92, c]
  else if c = 8 then Text.ofString "\\b"
  else if c = 9 then Text.ofString "\\t"
  else if c = 10 then Text.ofString "\\n"
  else if c = 12 then Text.ofString "\\f"
  else if c = 13 then Text.ofString "\\r"
  else if 32 ≤ c ∧ c < 127 then [c]
  else (Text.units c).flatMap escapeUnit

/-- A text between quotes. -/
def writeText (t : Text) : Text := 34 :: t.flatMap escape ++ [34]

/-- A truth value. -/
def writeBool (b : Bool) : Text := Text.ofString (if b then "true" else "false")

mutual

/-- A value without any space. -/
def compact : Value → Text
  | .null => Text.ofString "null"
  | .bool b => writeBool b
  | .int n => Text.ofInt n
  | .float x => Decimal.write Decimal.document x
  | .text t => writeText t
  | .list items => 91 :: compactItems items ++ [93]
  | .record fields => 123 :: compactFields fields ++ [125]

/-- Items with commas between them. -/
def compactItems : List Value → Text
  | [] => []
  | [v] => compact v
  | v :: vs => compact v ++ 44 :: compactItems vs

/-- Fields with commas between them. -/
def compactFields : Fields → Text
  | [] => []
  | [(k, v)] => writeText k ++ 58 :: compact v
  | (k, v) :: rest => writeText k ++ 58 :: compact v ++ 44 :: compactFields rest

end

/-- A new line and the spaces at its start: two for every open list or record. -/
def newLine (depth : Nat) : Text := 10 :: List.replicate (2 * depth) 32

mutual

/-- A value with every item and field on a line of its own; `depth` lists and records are open. -/
def indented (depth : Nat) : Value → Text
  | .list [] => [91, 93]
  | .record [] => [123, 125]
  | .list items =>
    91 :: newLine (depth + 1) ++ indentedItems (depth + 1) items ++ newLine depth ++ [93]
  | .record fields =>
    123 :: newLine (depth + 1) ++ indentedFields (depth + 1) fields ++ newLine depth ++ [125]
  | v => compact v

/-- Items, each on a line of its own. -/
def indentedItems (depth : Nat) : List Value → Text
  | [] => []
  | [v] => indented depth v
  | v :: vs => indented depth v ++ 44 :: newLine depth ++ indentedItems depth vs

/-- Fields, each on a line of its own. -/
def indentedFields (depth : Nat) : Fields → Text
  | [] => []
  | [(k, v)] => writeText k ++ 58 :: 32 :: indented depth v
  | (k, v) :: rest =>
    writeText k ++ 58 :: 32 :: indented depth v ++ 44 :: newLine depth
      ++ indentedFields depth rest

end

end PottsOracle.Json
