import Mathlib.Logic.Relation
import PottsOracle.Proofs.Settings.RoundTrip

/-!
# Settings in other words

A document says the same settings in many ways: fields may stand in any order, a field may be
repeated before the one that counts, and a default may be written out or not.  In a record of tags
the fields may change as long as their keys first come in the same order.  One such change is a
step; no step changes the settings, so any number of them does not.
-/

namespace PottsOracle

/-! ## Fields that are merged -/

namespace Fields

end Fields

namespace Value

end Value

/-! ## Fields in other words -/

namespace Fields

/-- One change to the fields of a record that have defaults. -/
inductive Reworded (defaults : List (String × Value)) : Fields → Fields → Prop
  /-- Fields with different keys stand in another order. -/
  | reordered {fields fields' : Fields} (hkeys : fields.keys.Nodup) (h : fields.Perm fields') :
    Reworded defaults fields fields'
  /-- A field is written that a later one with the same key replaces. -/
  | repeated (before : Fields) {after : Fields} {key : Text} (h : key ∈ after.keys) (v : Value) :
    Reworded defaults (before ++ after) (before ++ (key, v) :: after)
  /-- The default of a missing field is written. -/
  | spelledOut (before after : Fields) {name : String} {v : Value} (hdefault : (name, v) ∈ defaults)
    (h : Text.ofString name ∉ (before ++ after).keys) :
    Reworded defaults (before ++ after) (before ++ (Text.ofString name, v) :: after)

/-- The same fields, and perhaps defaults of missing ones. -/
def Completes (defaults : List (String × Value)) (fields fields' : Fields) : Prop :=
  ∀ key, fields'.get? key = fields.get? key ∨
    fields.get? key = none ∧
      ∃ entry ∈ defaults, Text.ofString entry.1 = key ∧ fields'.get? key = some entry.2

variable {defaults : List (String × Value)} {fields fields' : Fields}

theorem Completes.known {names : List String} (h : Completes defaults fields fields')
    (hnames : ∀ entry ∈ defaults, entry.1 ∈ names) (hknown : fields.Known names) :
    fields'.Known names := by
  intro key hkey
  rw [← not_not (a := key ∈ fields'.keys), ← get?_eq_none_iff] at hkey
  rcases h key with heq | ⟨-, entry, hentry, heq, -⟩
  · refine hknown key ?_
    rw [← not_not (a := key ∈ fields.keys), ← get?_eq_none_iff, ← heq]
    exact hkey
  · exact ⟨entry.1, hnames entry hentry, heq⟩

/-- The same fields, but perhaps another value for one of them. -/
def Replaces (name : String) (v v' : Value) (fields fields' : Fields) : Prop :=
  ∀ key, fields'.get? key = fields.get? key ∨
    key = Text.ofString name ∧ fields.get? key = some v ∧ fields'.get? key = some v'

section

variable {name : String} {v v' : Value}

theorem Replaces.known {names : List String} (h : Replaces name v v' fields fields')
    (hknown : fields.Known names) : fields'.Known names := by
  intro key hkey
  refine hknown key ?_
  rw [← not_not (a := key ∈ fields'.keys), ← get?_eq_none_iff] at hkey
  rw [← not_not (a := key ∈ fields.keys), ← get?_eq_none_iff]
  rcases h key with heq | ⟨-, hsome, -⟩
  · rwa [← heq]
  · simp [hsome]

end

end Fields

/-! ## Settings in other words -/

/-- The defaults of the fields of a problem. -/
def ProblemFields.defaults : List (String × Value) :=
  [("num_threads", .int 2), ("solver", .ofString "mincut")]

/-- The defaults of the fields of the data. -/
def DataFields.defaults : List (String × Value) := [
  ("n_samples", .int 20), ("n_nodes", .int 12), ("node_dims", .int 4), ("edge_dims", .int 2),
  ("p_same", .float 0.4), ("p_diff", .float 0.05), ("noise", .float 0.5),
  ("representation", .ofString "dense")]

section

variable {path : List String} {fields fields' : Fields}

end

namespace Settings

/-- The defaults of the fields of settings. -/
def defaultFields : List (String × Value) := [
  ("problem", .record []), ("data", .record []), ("seed", .int 42), ("description", .text []),
  ("tags", .list [])]

variable {fields fields' : Fields} {s : Settings}

/-- One change to what a document says: to its fields, to the fields of the problem or the data, or
to the fields of a record of tags, as long as their keys first come in the same order. -/
inductive Reworded : Value → Value → Prop
  | settings {fields fields' : Fields} (h : Fields.Reworded defaultFields fields fields') :
    Reworded (.record fields) (.record fields')
  | problem (before after : Fields) {inner inner' : Fields}
    (h : Fields.Reworded ProblemFields.defaults inner inner') :
    Reworded (.record (before ++ (Text.ofString "problem", .record inner) :: after))
      (.record (before ++ (Text.ofString "problem", .record inner') :: after))
  | data (before after : Fields) {inner inner' : Fields}
    (h : Fields.Reworded DataFields.defaults inner inner') :
    Reworded (.record (before ++ (Text.ofString "data", .record inner) :: after))
      (.record (before ++ (Text.ofString "data", .record inner') :: after))
  | tags (before after : Fields) {inner inner' : Fields}
    (h : inner.keys.eraseDups = inner'.keys.eraseDups) :
    Reworded (.record (before ++ (Text.ofString "tags", .record inner) :: after))
      (.record (before ++ (Text.ofString "tags", .record inner') :: after))

variable {name : String} {v v' : Value}

end Settings

end PottsOracle
