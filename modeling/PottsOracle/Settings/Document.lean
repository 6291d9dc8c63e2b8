import PottsOracle.Digest.Sha256
import PottsOracle.Json.Printer
import PottsOracle.Json.Reader
import PottsOracle.Settings.Basic

/-!
# Settings as documents

Settings are read from a record of a document and written as one.  A record may leave fields out;
it may not have others than those that are known.  At every level unknown fields are refused first;
then the fields are read one by one, in a fixed order, and only then are values held to their
ranges.

The fingerprint of settings is the start of a digest of their compact document with sorted fields.
-/

namespace PottsOracle

/-- The type of a field. -/
inductive FieldType where
  | integer
  | float
  | text
  deriving DecidableEq, Repr

namespace FieldType

/-- The name of a type. -/
def name : FieldType → String
  | integer => "int"
  | float => "float"
  | text => "str"

/-- A value has a type: a truth value counts as an integer, and an integer as a float. -/
def accepts : FieldType → Value → Bool
  | integer, .bool _ | integer, .int _ => true
  | float, .bool _ | float, .int _ | float, .float _ => true
  | text, .text _ => true
  | _, _ => false

end FieldType

namespace SettingsError

/-- The error about a value of a wrong type. -/
def ofValue (path : List String) (expected : String) (v : Value) : SettingsError :=
  wrongType path expected v.printed v.typeName

end SettingsError

namespace Fields

/-- No field has a name that is not known; unknown names are reported in their order. -/
def refuseUnknown (fields : Fields) (names : List String) : Except SettingsError Unit :=
  let unknown := fields.keys.filter fun key => !names.any fun name => Text.ofString name = key
  if unknown = [] then .ok () else .error (.unknownFields (unknown.mergeSort Text.le))

/-- Fields that are there have the types that are expected. -/
def checkTypes (fields : Fields) (path : List String) :
    List (String × FieldType) → Except SettingsError Unit
  | [] => .ok ()
  | (name, type) :: rest =>
    match fields.get? (Text.ofString name) with
    | none => fields.checkTypes path rest
    | some v =>
      if type.accepts v then fields.checkTypes path rest
      else .error (.ofValue (path ++ [name]) type.name v)

end Fields

/-- The types of the fields of a problem. -/
def ProblemFields.types : List (String × FieldType) :=
  [("num_threads", .integer), ("solver", .text)]

/-- The types of the fields of the data. -/
def DataFields.types : List (String × FieldType) := [
  ("n_samples", .integer), ("n_nodes", .integer), ("node_dims", .integer), ("edge_dims", .integer),
  ("p_same", .float), ("p_diff", .float), ("noise", .float), ("representation", .text)]

/-- The settings of a problem from the value of a field. -/
def ProblemSettings.ofValue (path : List String) : Value → Except SettingsError ProblemSettings
  | .record fields => do
    Fields.refuseUnknown fields ProblemFields.names
    Fields.checkTypes fields path ProblemFields.types
    (ProblemFields.ofRecord fields).check
  | v => .error (.ofValue path "ProblemConfig" v)

/-- The settings of the data from the value of a field. -/
def DataSettings.ofValue (path : List String) : Value → Except SettingsError DataSettings
  | .record fields => do
    Fields.refuseUnknown fields DataFields.names
    Fields.checkTypes fields path DataFields.types
    (DataFields.ofRecord fields).check
  | v => .error (.ofValue path "SyntheticConfig" v)

/-! ## Tags -/

/-- The items that tags are given as.  A record stands for its keys: each has two characters, and
the first of them is a tag, once. -/
def tagItems : Value → Except SettingsError (List Value)
  | .list items => .ok items
  | .text t => .ok (t.map fun c => .text [c])
  | .record fields => do
    let firsts ← (Fields.keys fields).mapM fun key => match key with
      | [c, _] => .ok c
      | _ => .error (.input .malformed)
    .ok (firsts.eraseDups.map fun c => .text [c])
  | .null | .bool _ | .int _ | .float _ => .error (.input .wrongType)

/-- The text that a value is. -/
def Value.text? : Value → Option Text
  | .text t => some t
  | _ => none

/-- Tags are texts. -/
def readTags (v : Value) : Except SettingsError (List Text) := do
  let items ← tagItems v
  match items.mapM Value.text? with
  | some tags => .ok tags
  | none => .error (.wrongType ["tags"] "tuple" (Value.shownTuple items) "tuple")

/-! ## Whole settings -/

namespace Settings

/-- The names of the fields. -/
def names : List String := ["problem", "data", "seed", "description", "tags"]

/-- The settings that a value denotes. -/
def ofValue : Value → Except SettingsError Settings
  | .record fields => do
    Fields.refuseUnknown fields names
    let field (name : String) (default : Value) := Fields.getDefault fields name default
    let problem ← ProblemSettings.ofValue ["problem"] (field "problem" (.record []))
    let data ← DataSettings.ofValue ["data"] (field "data" (.record []))
    Fields.checkTypes fields [] [("seed", .integer), ("description", .text)]
    let tags ← readTags (field "tags" (.list []))
    .ok {
      problem := problem
      data := data
      seed := (Number.ofValue? (field "seed" (.int 42))).getD (.int 42)
      description := ((field "description" (.text [])).text?).getD []
      tags := tags }
  | _ => .error .notARecord

/-- The settings that are all defaults. -/
def defaults : Except SettingsError Settings := ofValue (.record [])

end Settings

/-- Why a text gives no settings. -/
inductive DocumentError where
  | notADocument (cause : Json.SyntaxError)
  | settings (cause : SettingsError)

/-- The settings of a document. -/
def Settings.ofDocument (t : Text) : Except DocumentError Settings := do
  let v ← (Json.read t).mapError .notADocument
  (Settings.ofValue v).mapError .settings

/-! ## Writing -/

/-- The settings of a problem as a value. -/
def ProblemSettings.toValue (s : ProblemSettings) : Value :=
  .ofFields [("num_threads", s.threads.toValue), ("solver", .ofString s.solver.name)]

/-- The settings of the data as a value. -/
def DataSettings.toValue (s : DataSettings) : Value :=
  .ofFields [
    ("n_samples", s.samples.toValue), ("n_nodes", s.nodes.toValue),
    ("node_dims", s.nodeDims.toValue), ("edge_dims", s.edgeDims.toValue),
    ("p_same", s.pSame.toValue), ("p_diff", s.pDiff.toValue), ("noise", s.noise.toValue),
    ("representation", .ofString s.representation.name)]

namespace Settings

/-- Settings as a value. -/
def toValue (s : Settings) : Value :=
  .ofFields [
    ("problem", s.problem.toValue), ("data", s.data.toValue), ("seed", s.seed.toValue),
    ("description", .text s.description), ("tags", .list (s.tags.map .text))]

/-- Settings as a document, with sorted fields and every field on a line of its own. -/
def toDocument (s : Settings) : Text := Json.indented 0 s.toValue.sorted

end Settings

/-- The compact document with sorted fields, which identifies a value. -/
def Value.canonical (v : Value) : Text := Json.compact v.sorted

/-- The length of a fingerprint in bytes. -/
def fingerprintBytes : Nat := 8

/-- The fingerprint of a value: the first bytes of the digest of its canonical document, in base
sixteen. -/
def Value.fingerprint (v : Value) : Text :=
  ((Sha256.digest v.canonical).take fingerprintBytes).flatMap (Text.hex 2)

end PottsOracle
