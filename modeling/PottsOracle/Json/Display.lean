import PottsOracle.Json.Value
import PottsOracle.Decimal.Style
import PottsOracle.Text.Quoted

/-!
# Values in messages

How a message shows a value and names its type.  A text that is a value of its own is shown as it
is; inside a list or record, or where the message asks for it, it is quoted.
-/

namespace PottsOracle.Value

/-- The name of a value's type. -/
def typeName : Value → String
  | .null => "NoneType"
  | .bool _ => "bool"
  | .int _ => "int"
  | .float _ => "float"
  | .text _ => "str"
  | .list _ => "list"
  | .record _ => "dict"

mutual

/-- A value with its texts quoted. -/
def shown : Value → Text
  | .null => Text.ofString "None"
  | .bool b => Text.ofString (if b then "True" else "False")
  | .int n => Text.ofInt n
  | .float x => Decimal.write Decimal.plain x
  | .text t => Text.quoted t
  | .list items => 91 :: Text.joined (Text.ofString ", ") (shownItems items) ++ [93]
  | .record fields => 123 :: Text.joined (Text.ofString ", ") (shownFields fields) ++ [125]

/-- The items of a list, one by one. -/
def shownItems : List Value → List Text
  | [] => []
  | v :: vs => v.shown :: shownItems vs

/-- The fields of a record, one by one. -/
def shownFields : Fields → List Text
  | [] => []
  | (k, v) :: rest => (Text.quoted k ++ Text.ofString ": " ++ v.shown) :: shownFields rest

end

/-- A value as a message prints it. -/
def printed : Value → Text
  | .text t => t
  | v => v.shown

/-- Items between round brackets, a lone one with a comma behind it. -/
def shownTuple (items : List Value) : Text :=
  match shownItems items with
  | [t] => 40 :: t ++ Text.ofString ",)"
  | ts => 40 :: Text.joined (Text.ofString ", ") ts ++ [41]

end PottsOracle.Value
