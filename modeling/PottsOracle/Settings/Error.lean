import PottsOracle.Input.Number
import PottsOracle.Json.Display

/-!
# Errors in settings

Why settings cannot be used, and how a message says it.
-/

namespace PottsOracle

/-- A value that is out of range. -/
inductive RangeError where
  | threads (found : Value)
  | solver (found : Value)
  | sizes (samples nodes : Value)
  | dims (nodeDims edgeDims : Value)
  | probability (name : String) (found : Value)
  | noise (found : Value)
  | representation (found : Value)

/-- Why settings cannot be read. -/
inductive SettingsError where
  /-- The settings as a whole are no record. -/
  | notARecord
  /-- There are fields of unknown names. -/
  | unknownFields (names : List Text)
  /-- A field has a value of a wrong type: the path to the field, the type that is expected, the
  value as it is printed, and the name of its type. -/
  | wrongType (path : List String) (expected : String) (printed : Text) (found : String)
  /-- A field has a value that cannot be used at all. -/
  | input (cause : InputError)
  | range (cause : RangeError)

namespace RangeError

/-- The message about a value that is out of range. -/
def message : RangeError → Text
  | threads found => Text.ofString "num_threads must be >= 1, got " ++ found.printed
  | solver found =>
    Text.ofString "solver must be one of ('mincut', 'exhaustive'), got " ++ found.shown
  | sizes samples nodes =>
    Text.ofString "n_samples (" ++ samples.printed ++ Text.ofString ") and n_nodes ("
      ++ nodes.printed ++ Text.ofString ") must both be >= 1"
  | dims nodeDims edgeDims =>
    Text.ofString "node_dims (" ++ nodeDims.printed
      ++ Text.ofString ") must be >= 2 and edge_dims (" ++ edgeDims.printed
      ++ Text.ofString ") must be >= 1"
  | probability name found =>
    Text.ofString (name ++ " must lie in [0, 1], got ") ++ found.printed
  | noise found => Text.ofString "noise must be >= 0, got " ++ found.printed
  | representation found =>
    Text.ofString "representation must be one of ('dense', 'sparse'), got " ++ found.shown

end RangeError

namespace SettingsError

/-- A text between double quotes, without escapes. -/
def enclosed (t : Text) : Text := 34 :: t ++ [34]

/-- The message about settings, if the error has one. -/
def message? : SettingsError → Option Text
  | notARecord | input _ => none
  | unknownFields names =>
    some (Text.ofString "can not match " ++ Text.joined (Text.ofString ", ") (names.map enclosed)
      ++ Text.ofString " to any data class field")
  | wrongType path expected printed found =>
    some (Text.ofString "wrong value type for field "
      ++ enclosed (Text.ofString (".".intercalate path)) ++ Text.ofString " - should be "
      ++ enclosed (Text.ofString expected) ++ Text.ofString " instead of value "
      ++ enclosed printed ++ Text.ofString " of type " ++ enclosed (Text.ofString found))
  | range cause => some cause.message

end SettingsError

end PottsOracle
