import PottsOracle.Proofs.Traverse
import PottsOracle.Settings.Document

/-!
# Which records give which settings

Settings are accepted exactly if every field of the record, or its default where it is missing, is
the value that stands for them.  So what the settings are is read off the fields one by one, and
nothing else about the record counts.
-/

namespace PottsOracle

/-- A number that was written as an integer or as a truth value. -/
def Number.IsInteger (x : Number) : Prop := FieldType.integer.accepts x.toValue = true

namespace Fields

/-- Every field has one of the names. -/
def Known (fields : Fields) (names : List String) : Prop :=
  ∀ key ∈ fields.keys, ∃ name ∈ names, Text.ofString name = key

theorem refuseUnknown_eq_ok_iff {fields : Fields} {names : List String} :
    fields.refuseUnknown names = .ok () ↔ fields.Known names := by
  have hfilter :
      (fields.keys.filter fun key => !names.any fun name => Text.ofString name = key) = [] ↔
        fields.Known names := by
    simp [List.filter_eq_nil_iff, Known]
  rw [refuseUnknown, ← hfilter]
  split_ifs with h <;> simp [h]

/-- The fields that are there have their types, and so have the values with the defaults. -/
theorem checkTypes_eq_ok_iff {fields : Fields} {path : List String}
    {types : List (String × FieldType)} :
    fields.checkTypes path types = .ok () ↔
      ∀ entry ∈ types, ∀ v, fields.get? (Text.ofString entry.1) = some v →
        entry.2.accepts v = true := by
  induction types with
  | nil => simp [checkTypes]
  | cons entry rest ih =>
    obtain ⟨name, type⟩ := entry
    rw [checkTypes, List.forall_mem_cons, ← ih]
    cases hv : fields.get? (Text.ofString name) with
    | none => simp
    | some v =>
      cases ha : type.accepts v <;> simp [ha]

/-- Where a default has the type of its field, it does not matter whether the field is there. -/
theorem accepts_getDefault {fields : Fields} {name : String} {type : FieldType} (default : Value)
    (hdefault : type.accepts default = true) :
    type.accepts (fields.getDefault name default) = true ↔
      ∀ v, fields.get? (Text.ofString name) = some v → type.accepts v = true := by
  rw [getDefault]
  cases fields.get? (Text.ofString name) with
  | none => simp [hdefault]
  | some v => simp

end Fields

/-! ## Numbers and names -/

theorem Number.ofValue?_eq_some_iff {v : Value} {x : Number} :
    Number.ofValue? v = some x ↔ v = x.toValue := by
  constructor
  · intro h
    cases v <;> cases h <;> rfl
  · rintro rfl
    exact Number.ofValue?_toValue x

/-- A number that is required is the number that stands there. -/
theorem Number.require_eq_ok_iff {v : Value} {bad : Number → Bool} {e : RangeError}
    {x : {x : Number // bad x = false}} : Number.require v bad e = .ok x ↔ v = x.val.toValue := by
  rw [← Number.ofValue?_eq_some_iff]
  unfold Number.require
  split
  case h_1 hnone => simp [hnone]
  case h_2 y hy =>
    rw [hy]
    split
    case h_1 hbad =>
      simp only [reduceCtorEq, Option.some.injEq, false_iff]
      rintro rfl
      simp [x.property] at hbad
    case h_2 hgood => simp [Subtype.ext_iff]

theorem Text.ofString_inj {a b : String} : Text.ofString a = Text.ofString b ↔ a = b := by
  rw [Text.ofString, Text.ofString, ← String.toList_inj]
  exact (List.map_injective_iff.2 fun _ _ => Char.toNat_inj.1).eq_iff

/-- A name stands for the one value that is listed with it. -/
theorem Value.named?_eq_some_iff {α : Type} {values : List α} {name : α → String}
    (hname : Function.Injective name) {v : Value} {a : α} (ha : a ∈ values) :
    Value.named? (values.map fun a => (name a, a)) v = some a ↔ v = .ofString (name a) := by
  match v with
  | .text t =>
    simp only [Value.named?, List.find?_map, Option.map_map, Value.ofString, Value.text.injEq]
    constructor
    · intro h
      obtain ⟨b, hb, rfl⟩ := Option.map_eq_some_iff.1 h
      have := List.find?_some hb
      simp_all
    · rintro rfl
      cases hfind : values.find? ((fun entry => decide (Text.ofString entry.1 =
          Text.ofString (name a))) ∘ fun a => (name a, a)) with
      | none => simpa using List.find?_eq_none.1 hfind a ha
      | some b =>
        have hb := List.find?_some hfind
        simp only [Function.comp_apply, decide_eq_true_eq, Text.ofString_inj] at hb
        simp [hname hb]
  | .null | .bool _ | .int _ | .float _ | .list _ | .record _ => simp [Value.named?, Value.ofString]

/-! ## Problems and data -/

/-- The fields that settings are made from. -/
def ProblemSettings.toFields (s : ProblemSettings) : ProblemFields where
  threads := s.threads.toValue
  solver := .ofString s.solver.name

theorem Solver.name_injective : Function.Injective Solver.name := by
  rintro (_ | _) (_ | _) h <;> simp_all [Solver.name]

theorem Solver.mem_values (s : Solver) : s ∈ [Solver.minCut, Solver.exhaustive] := by
  cases s <;> simp

theorem ProblemFields.check_eq_ok_iff {f : ProblemFields} {s : ProblemSettings} :
    f.check = .ok s ↔ f = s.toFields := by
  have hsolver := fun solver => Value.named?_eq_some_iff Solver.name_injective (v := f.solver)
    (Solver.mem_values solver)
  simp only [ProblemFields.check, bind_eq_ok_iff, Number.require_eq_ok_iff]
  constructor
  · rintro ⟨threads, hthreads, h⟩
    split at h
    case h_1 => cases h
    case h_2 solver hname =>
      cases h
      simp only [ProblemSettings.toFields, ← hthreads, ← (hsolver solver).1 hname]
  · rintro rfl
    refine ⟨⟨s.threads, s.one_le_threads⟩, rfl, ?_⟩
    have hname := (hsolver s.solver).2 rfl
    rw [ProblemFields.solvers, hname]

/-- The fields that settings are made from. -/
def DataSettings.toFields (s : DataSettings) : DataFields where
  samples := s.samples.toValue
  nodes := s.nodes.toValue
  nodeDims := s.nodeDims.toValue
  edgeDims := s.edgeDims.toValue
  pSame := s.pSame.toValue
  pDiff := s.pDiff.toValue
  noise := s.noise.toValue
  representation := .ofString s.representation.name

theorem FeatureKind.name_injective : Function.Injective FeatureKind.name := by
  rintro (_ | _) (_ | _) h <;> simp_all [FeatureKind.name]

theorem FeatureKind.mem_values (k : FeatureKind) : k ∈ [FeatureKind.dense, FeatureKind.sparse] := by
  cases k <;> simp

theorem DataFields.check_eq_ok_iff {f : DataFields} {s : DataSettings} :
    f.check = .ok s ↔ f = s.toFields := by
  have hkind := fun kind => Value.named?_eq_some_iff FeatureKind.name_injective
    (v := f.representation) (FeatureKind.mem_values kind)
  simp only [DataFields.check, bind_eq_ok_iff, Number.require_eq_ok_iff]
  constructor
  · rintro ⟨samples, hsamples, nodes, hnodes, nodeDims, hnodeDims, edgeDims, hedgeDims,
      pSame, hpSame, pDiff, hpDiff, noise, hnoise, h⟩
    split at h
    case h_1 => cases h
    case h_2 kind hname =>
      cases h
      simp only [DataSettings.toFields, ← hsamples, ← hnodes, ← hnodeDims, ← hedgeDims, ← hpSame,
        ← hpDiff, ← hnoise, ← (hkind kind).1 hname]
  · rintro rfl
    have hname := (hkind s.representation).2 rfl
    refine ⟨⟨s.samples, s.one_le_samples⟩, rfl, ⟨s.nodes, s.one_le_nodes⟩, rfl,
      ⟨s.nodeDims, s.two_le_nodeDims⟩, rfl, ⟨s.edgeDims, s.one_le_edgeDims⟩, rfl,
      ⟨s.pSame, by simp [s.pSame_inUnit]⟩, rfl, ⟨s.pDiff, by simp [s.pDiff_inUnit]⟩, rfl,
      ⟨s.noise, s.zero_le_noise⟩, rfl, ?_⟩
    rw [DataFields.representations, hname]

/-! ## Types -/

/-- The number of workers was not written as a float. -/
def ProblemSettings.IsTyped (s : ProblemSettings) : Prop := s.threads.IsInteger

/-- No count was written as a float. -/
structure DataSettings.IsTyped (s : DataSettings) : Prop where
  samples : s.samples.IsInteger
  nodes : s.nodes.IsInteger
  nodeDims : s.nodeDims.IsInteger
  edgeDims : s.edgeDims.IsInteger

theorem FieldType.float_accepts (x : Number) : FieldType.float.accepts x.toValue = true := by
  cases x <;> rfl

/-- A value that counts as an integer is a number. -/
theorem FieldType.accepts_integer_iff {v : Value} :
    FieldType.integer.accepts v = true ↔ ∃ x : Number, v = x.toValue ∧ x.IsInteger := by
  constructor
  · intro h
    match v, h with
    | .bool b, h => exact ⟨.bool b, rfl, h⟩
    | .int n, h => exact ⟨.int n, rfl, h⟩
  · rintro ⟨x, rfl, hx⟩
    exact hx

theorem FieldType.accepts_text_iff {v : Value} :
    FieldType.text.accepts v = true ↔ ∃ t, v = .text t := by
  cases v <;> simp [FieldType.accepts]

/-- The types are right if all of them are right once the defaults are filled in. -/
theorem ProblemFields.checkTypes_eq_ok_iff {fields : Fields} {path : List String}
    {s : ProblemSettings} (h : ofRecord fields = s.toFields) :
    fields.checkTypes path types = .ok () ↔ s.IsTyped := by
  simp only [ofRecord, ProblemSettings.toFields, ProblemFields.mk.injEq] at h
  rw [Fields.checkTypes_eq_ok_iff]
  simp only [types, List.forall_mem_cons, List.not_mem_nil, false_implies, implies_true, and_true]
  rw [← Fields.accepts_getDefault (.int 2) rfl,
    ← Fields.accepts_getDefault (.ofString "mincut") rfl, h.1, h.2]
  simp [ProblemSettings.IsTyped, Number.IsInteger, Value.ofString, FieldType.accepts]

theorem DataFields.checkTypes_eq_ok_iff {fields : Fields} {path : List String}
    {s : DataSettings} (h : ofRecord fields = s.toFields) :
    fields.checkTypes path types = .ok () ↔ s.IsTyped := by
  simp only [ofRecord, DataSettings.toFields, DataFields.mk.injEq] at h
  obtain ⟨hsamples, hnodes, hnodeDims, hedgeDims, hpSame, hpDiff, hnoise, hkind⟩ := h
  rw [Fields.checkTypes_eq_ok_iff]
  simp only [types, List.forall_mem_cons, List.not_mem_nil, false_implies, implies_true, and_true]
  rw [← Fields.accepts_getDefault (.int 20) rfl,
    ← Fields.accepts_getDefault (.int 12) rfl,
    ← Fields.accepts_getDefault (.int 4) rfl,
    ← Fields.accepts_getDefault (.int 2) rfl,
    ← Fields.accepts_getDefault (.float 0.4) rfl,
    ← Fields.accepts_getDefault (.float 0.05) rfl,
    ← Fields.accepts_getDefault (.float 0.5) rfl,
    ← Fields.accepts_getDefault (.ofString "dense") rfl,
    hsamples, hnodes, hnodeDims, hedgeDims, hpSame, hpDiff, hnoise, hkind]
  simp only [FieldType.float_accepts, true_and]
  constructor
  · rintro ⟨hsamples, hnodes, hnodeDims, hedgeDims, _⟩
    exact ⟨hsamples, hnodes, hnodeDims, hedgeDims⟩
  · rintro ⟨hsamples, hnodes, hnodeDims, hedgeDims⟩
    exact ⟨hsamples, hnodes, hnodeDims, hedgeDims, rfl⟩

/-! ## Values that are accepted -/

/-- The settings of a problem are those of the fields of a record with known names. -/
theorem ProblemSettings.ofValue_eq_ok_iff {path : List String} {v : Value} {s : ProblemSettings} :
    ProblemSettings.ofValue path v = .ok s ↔ ∃ fields : Fields, v = .record fields ∧
      fields.Known ProblemFields.names ∧ ProblemFields.ofRecord fields = s.toFields ∧
        s.IsTyped := by
  match v with
  | .record fields =>
    simp only [ProblemSettings.ofValue, bind_eq_ok_iff, Value.record.injEq, exists_eq_left',
      ProblemFields.check_eq_ok_iff]
    constructor
    · rintro ⟨⟨⟩, hknown, ⟨⟩, htypes, h⟩
      exact ⟨Fields.refuseUnknown_eq_ok_iff.1 hknown, h,
        (ProblemFields.checkTypes_eq_ok_iff h).1 htypes⟩
    · rintro ⟨hknown, h, htyped⟩
      exact ⟨⟨⟩, Fields.refuseUnknown_eq_ok_iff.2 hknown, ⟨⟩,
        (ProblemFields.checkTypes_eq_ok_iff h).2 htyped, h⟩
  | .null | .bool _ | .int _ | .float _ | .text _ | .list _ => simp [ProblemSettings.ofValue]

/-- The settings of the data are those of the fields of a record with known names. -/
theorem DataSettings.ofValue_eq_ok_iff {path : List String} {v : Value} {s : DataSettings} :
    DataSettings.ofValue path v = .ok s ↔ ∃ fields : Fields, v = .record fields ∧
      fields.Known DataFields.names ∧ DataFields.ofRecord fields = s.toFields ∧ s.IsTyped := by
  match v with
  | .record fields =>
    simp only [DataSettings.ofValue, bind_eq_ok_iff, Value.record.injEq, exists_eq_left',
      DataFields.check_eq_ok_iff]
    constructor
    · rintro ⟨⟨⟩, hknown, ⟨⟩, htypes, h⟩
      exact ⟨Fields.refuseUnknown_eq_ok_iff.1 hknown, h,
        (DataFields.checkTypes_eq_ok_iff h).1 htypes⟩
    · rintro ⟨hknown, h, htyped⟩
      exact ⟨⟨⟩, Fields.refuseUnknown_eq_ok_iff.2 hknown, ⟨⟩,
        (DataFields.checkTypes_eq_ok_iff h).2 htyped, h⟩
  | .null | .bool _ | .int _ | .float _ | .text _ | .list _ => simp [DataSettings.ofValue]

/-! ## Tags -/

theorem Value.text?_eq_some_iff {v : Value} {t : Text} : v.text? = some t ↔ v = .text t := by
  cases v <;> simp [Value.text?]

/-- Tags are read off items that are texts. -/
theorem readTags_eq_ok_iff {v : Value} {tags : List Text} :
    readTags v = .ok tags ↔ tagItems v = .ok (tags.map .text) := by
  have hitems (items : List Value) :
      items.mapM Value.text? = some tags ↔ items = tags.map .text := by
    simp only [mapM_eq_some_iff, Value.text?_eq_some_iff]
    rw [← List.forall₂_eq_eq_eq, List.forall₂_map_right_iff]
  rw [readTags, bind_eq_ok_iff]
  constructor
  · rintro ⟨items, h, htags⟩
    split at htags
    case h_1 tags' htexts =>
      cases htags
      rw [h, (hitems items).1 htexts]
    case h_2 => cases htags
  · intro h
    exact ⟨_, h, by rw [(hitems _).2 rfl]⟩

/-! ## Whole settings -/

namespace Settings

/-- What a record says about settings: each field stands for its part of them. -/
structure IsGivenBy (s : Settings) (fields : Fields) : Prop where
  known : fields.Known names
  problem : ProblemSettings.ofValue ["problem"] (fields.getDefault "problem" (.record [])) =
    .ok s.problem
  data : DataSettings.ofValue ["data"] (fields.getDefault "data" (.record [])) = .ok s.data
  seed : fields.getDefault "seed" (.int 42) = s.seed.toValue
  seed_isInteger : s.seed.IsInteger
  description : fields.getDefault "description" (.text []) = .text s.description
  tags : readTags (fields.getDefault "tags" (.list [])) = .ok s.tags

theorem checkTypes_eq_ok_iff {fields : Fields} :
    fields.checkTypes [] [("seed", .integer), ("description", .text)] = .ok () ↔
      (∃ x : Number, fields.getDefault "seed" (.int 42) = x.toValue ∧ x.IsInteger) ∧
        ∃ t, fields.getDefault "description" (.text []) = .text t := by
  rw [Fields.checkTypes_eq_ok_iff, ← FieldType.accepts_integer_iff, ← FieldType.accepts_text_iff,
    Fields.accepts_getDefault _ rfl, Fields.accepts_getDefault _ rfl]
  simp

/-- A value gives settings exactly if it is a record that says all of them. -/
theorem ofValue_eq_ok_iff {v : Value} {s : Settings} :
    ofValue v = .ok s ↔ ∃ fields : Fields, v = .record fields ∧ s.IsGivenBy fields := by
  match v with
  | .record fields =>
    simp only [ofValue, bind_eq_ok_iff, Value.record.injEq, exists_eq_left']
    constructor
    · rintro ⟨⟨⟩, hknown, problem, hproblem, data, hdata, ⟨⟩, htypes, tags, htags, h⟩
      obtain ⟨⟨seed, hseed, hinteger⟩, t, ht⟩ := checkTypes_eq_ok_iff.1 htypes
      cases h
      refine ⟨Fields.refuseUnknown_eq_ok_iff.1 hknown, hproblem, hdata, ?_, ?_, ?_, htags⟩
      · simp [hseed]
      · simpa [hseed] using hinteger
      · simp [ht, Value.text?]
    · rintro ⟨hknown, hproblem, hdata, hseed, hinteger, hdescription, htags⟩
      refine ⟨⟨⟩, Fields.refuseUnknown_eq_ok_iff.2 hknown, s.problem, hproblem, s.data, hdata, ⟨⟩,
        checkTypes_eq_ok_iff.2 ⟨⟨s.seed, hseed, hinteger⟩, s.description, hdescription⟩,
        s.tags, htags, ?_⟩
      simp [hseed, hdescription, Value.text?]
  | .null | .bool _ | .int _ | .float _ | .text _ | .list _ => simp [ofValue]

end Settings

end PottsOracle
