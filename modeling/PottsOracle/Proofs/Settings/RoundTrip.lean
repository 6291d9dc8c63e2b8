import PottsOracle.Proofs.Json.Sorted
import PottsOracle.Proofs.Settings.Accepted

/-!
# Settings that are written are read back

Settings that come from a document are written in such a way that reading them gives the same
settings: numbers keep their form, texts keep every code point, and tags keep their order.
-/

namespace PottsOracle

/-! ## Fields with string keys -/

theorem Fields.nodup_keys_map {entries : List (String × Value)} (h : (entries.map Prod.fst).Nodup) :
    (Fields.keys (entries.map fun (k, v) => (Text.ofString k, v))).Nodup := by
  have hkeys : Fields.keys (entries.map fun (k, v) => (Text.ofString k, v)) =
      (entries.map Prod.fst).map Text.ofString := by
    simp [Fields.keys]
  rw [hkeys]
  exact h.map fun _ _ => Text.ofString_inj.1

theorem Fields.known_sortedFields_map {entries : List (String × Value)} {names : List String}
    (h : ∀ name ∈ entries.map Prod.fst, name ∈ names) :
    Fields.Known (Value.sortedFields (entries.map fun (k, v) => (Text.ofString k, v))) names := by
  intro key hkey
  rw [(Value.keys_sortedFields_perm _).mem_iff] at hkey
  simp only [Fields.keys, List.map_map, List.mem_map] at hkey
  obtain ⟨entry, hentry, rfl⟩ := hkey
  exact ⟨entry.1, h _ (List.mem_map_of_mem hentry), rfl⟩

/-- A field of a sorted record whose keys are given as strings. -/
theorem Fields.getDefault_sortedFields_map {entries : List (String × Value)}
    (h : (entries.map Prod.fst).Nodup) (name : String) (default : Value) :
    Fields.getDefault (Value.sortedFields (entries.map fun (k, v) => (Text.ofString k, v))) name
      default = ((entries.lookup name).map Value.sorted).getD default := by
  have hlookup : Fields.get? (entries.map fun (k, v) => (Text.ofString k, v)) (Text.ofString name) =
      entries.lookup name := by
    clear h
    induction entries with
    | nil => rfl
    | cons entry rest ih =>
      rw [List.map_cons, Fields.get?_cons, ih, List.lookup]
      by_cases hname : entry.1 = name
      · simp [hname]
      · simp [Text.ofString_inj, hname, beq_false_of_ne (Ne.symm hname)]
  rw [Fields.getDefault, Value.get?_sortedFields (Fields.nodup_keys_map h), hlookup]

theorem Number.sorted_toValue (x : Number) : x.toValue.sorted = x.toValue := by
  cases x <;> rfl

theorem Value.sorted_ofString (s : String) : (Value.ofString s).sorted = .ofString s := rfl

/-! ## Settings are those of their own document -/

namespace ProblemSettings

/-- The fields of the settings with their names. -/
def entries (s : ProblemSettings) : List (String × Value) :=
  [("num_threads", s.threads.toValue), ("solver", .ofString s.solver.name)]

theorem ofValue_sorted_toValue {s : ProblemSettings} (h : s.IsTyped) (path : List String) :
    ofValue path s.toValue.sorted = .ok s := by
  have hkeys : (s.entries.map Prod.fst).Nodup := by simp [entries]
  have hfield := Fields.getDefault_sortedFields_map hkeys
  refine ofValue_eq_ok_iff.2 ⟨Value.sortedFields (s.entries.map fun (k, v) => (Text.ofString k, v)),
    rfl, Fields.known_sortedFields_map (by simp [entries, ProblemFields.names]), ?_, h⟩
  simp only [ProblemFields.ofRecord, hfield, toFields, ProblemFields.mk.injEq]
  simp [entries, List.lookup, Number.sorted_toValue, Value.sorted_ofString]

end ProblemSettings

namespace DataSettings

/-- The fields of the settings with their names. -/
def entries (s : DataSettings) : List (String × Value) := [
  ("n_samples", s.samples.toValue), ("n_nodes", s.nodes.toValue),
  ("node_dims", s.nodeDims.toValue), ("edge_dims", s.edgeDims.toValue),
  ("p_same", s.pSame.toValue), ("p_diff", s.pDiff.toValue), ("noise", s.noise.toValue),
  ("representation", .ofString s.representation.name)]

theorem ofValue_sorted_toValue {s : DataSettings} (h : s.IsTyped) (path : List String) :
    ofValue path s.toValue.sorted = .ok s := by
  have hkeys : (s.entries.map Prod.fst).Nodup := by simp [entries]
  have hfield := Fields.getDefault_sortedFields_map hkeys
  refine ofValue_eq_ok_iff.2 ⟨Value.sortedFields (s.entries.map fun (k, v) => (Text.ofString k, v)),
    rfl, Fields.known_sortedFields_map (by simp [entries, DataFields.names]), ?_, h⟩
  simp only [DataFields.ofRecord, hfield, toFields, DataFields.mk.injEq]
  simp [entries, List.lookup, Number.sorted_toValue, Value.sorted_ofString]

end DataSettings

namespace Settings

/-- The fields of the settings with their names. -/
def entries (s : Settings) : List (String × Value) := [
  ("problem", s.problem.toValue), ("data", s.data.toValue), ("seed", s.seed.toValue),
  ("description", .text s.description), ("tags", .list (s.tags.map .text))]

/-- No count and no seed was written as a float. -/
structure IsTyped (s : Settings) : Prop where
  problem : s.problem.IsTyped
  data : s.data.IsTyped
  seed : s.seed.IsInteger

theorem isTyped_of_ofValue {v : Value} {s : Settings} (h : ofValue v = .ok s) : s.IsTyped := by
  obtain ⟨fields, -, hs⟩ := ofValue_eq_ok_iff.1 h
  obtain ⟨_, -, -, -, hproblem⟩ := ProblemSettings.ofValue_eq_ok_iff.1 hs.problem
  obtain ⟨_, -, -, -, hdata⟩ := DataSettings.ofValue_eq_ok_iff.1 hs.data
  exact ⟨hproblem, hdata, hs.seed_isInteger⟩

/-- The sorted value of settings denotes them. -/
theorem ofValue_sorted_toValue {s : Settings} (h : s.IsTyped) :
    ofValue s.toValue.sorted = .ok s := by
  have hkeys : (s.entries.map Prod.fst).Nodup := by simp [entries]
  have hfield := Fields.getDefault_sortedFields_map hkeys
  have htags : (Value.list (s.tags.map Value.text)).sorted = .list (s.tags.map .text) := by
    rw [Value.sorted, Value.sortedItems_eq_map, List.map_map]
    rfl
  refine ofValue_eq_ok_iff.2 ⟨Value.sortedFields (s.entries.map fun (k, v) => (Text.ofString k, v)),
    rfl, ?_⟩
  constructor
  · exact Fields.known_sortedFields_map (by simp [entries, names])
  · rw [hfield]
    simpa [entries, List.lookup] using ProblemSettings.ofValue_sorted_toValue h.problem ["problem"]
  · rw [hfield]
    simpa [entries, List.lookup] using DataSettings.ofValue_sorted_toValue h.data ["data"]
  · rw [hfield]
    simp [entries, List.lookup, Number.sorted_toValue]
  · exact h.seed
  · rw [hfield]
    simp [entries, List.lookup, Value.sorted]
  · rw [hfield]
    exact readTags_eq_ok_iff.2 (by simp [entries, List.lookup, htags, tagItems])

end Settings

/-! ## Settings from plain values are plain -/

namespace Value

theorem PlainFields.getDefault {fields : Fields} (h : PlainFields fields) (default : Value)
    (hdefault : default.IsPlain) (name : String) : (fields.getDefault name default).IsPlain := by
  rw [Fields.getDefault]
  cases hv : fields.get? (Text.ofString name) with
  | none => exact hdefault
  | some v => exact (plainFields_iff.1 h _ (Fields.mem_of_get?_eq_some hv)).2

/-- An integer of few digits can be written. -/
theorem isPlain_int {n : Int} (h : n.natAbs < 10 ^ 2) : (Value.int n).IsPlain := by
  have hlength := (Text.length_digits_le_iff (by norm_num)).2 h
  simp only [IsPlain, isLeaf, decide_eq_true_eq]
  exact hlength.trans (by decide)

theorem isPlain_float (x : Float) : (Value.float x).IsPlain := rfl

theorem isPlain_ofString (s : String) : (ofString s).IsPlain :=
  (Text.isScalar_ofString s).isUnpaired

theorem isPlain_ofFields {entries : List (String × Value)} (hkeys : (entries.map Prod.fst).Nodup)
    (h : ∀ entry ∈ entries, entry.2.IsPlain) : (ofFields entries).IsPlain := by
  refine ⟨Fields.nodup_keys_map hkeys, plainFields_iff.2 fun kv hkv => ?_⟩
  obtain ⟨entry, hentry, rfl⟩ := List.mem_map.1 hkv
  exact ⟨(Text.isScalar_ofString entry.1).isUnpaired, h entry hentry⟩

end Value

theorem ProblemSettings.isPlain_toValue {path : List String} {v : Value} {s : ProblemSettings}
    (hv : v.IsPlain) (h : ProblemSettings.ofValue path v = .ok s) : s.toValue.IsPlain := by
  obtain ⟨fields, rfl, -, hfields, -⟩ := ofValue_eq_ok_iff.1 h
  simp only [ProblemFields.ofRecord, toFields, ProblemFields.mk.injEq] at hfields
  refine Value.isPlain_ofFields (by simp) ?_
  simp only [List.forall_mem_cons, List.not_mem_nil, false_implies, implies_true, and_true,
    Value.isPlain_ofString, ← hfields.1]
  exact hv.2.getDefault _ (Value.isPlain_int (by decide)) _

theorem DataSettings.isPlain_toValue {path : List String} {v : Value} {s : DataSettings}
    (hv : v.IsPlain) (h : DataSettings.ofValue path v = .ok s) : s.toValue.IsPlain := by
  obtain ⟨fields, rfl, -, hfields, -⟩ := ofValue_eq_ok_iff.1 h
  simp only [DataFields.ofRecord, toFields, DataFields.mk.injEq] at hfields
  obtain ⟨hsamples, hnodes, hnodeDims, hedgeDims, hpSame, hpDiff, hnoise, -⟩ := hfields
  refine Value.isPlain_ofFields (by simp) ?_
  simp only [List.forall_mem_cons, List.not_mem_nil, false_implies, implies_true, and_true,
    Value.isPlain_ofString, ← hsamples, ← hnodes, ← hnodeDims, ← hedgeDims, ← hpSame, ← hpDiff,
    ← hnoise]
  refine ⟨?_, ?_, ?_, ?_, hv.2.getDefault _ (Value.isPlain_float _) _,
    hv.2.getDefault _ (Value.isPlain_float _) _, hv.2.getDefault _ (Value.isPlain_float _) _⟩
  all_goals exact hv.2.getDefault _ (Value.isPlain_int (by decide)) _

/-- Tags that are single characters have no pair of surrogates. -/
theorem isUnpaired_of_map_text_eq {tags : List Text} {cs : List CodePoint}
    (h : tags.map Value.text = cs.map fun c => .text [c]) (hlt : ∀ c ∈ cs, c < 0x110000) :
    ∀ t ∈ tags, t.IsUnpaired := by
  intro tag htag
  have hmem : Value.text tag ∈ tags.map Value.text := List.mem_map_of_mem htag
  rw [h] at hmem
  obtain ⟨c, hc, heq⟩ := List.mem_map.1 hmem
  cases heq
  exact Text.isUnpaired_singleton (hlt c hc)

/-- Tags are texts, characters or starts of keys; none of them has a pair of surrogates. -/
theorem isUnpaired_of_readTags {v : Value} {tags : List Text} (hv : v.IsPlain)
    (h : readTags v = .ok tags) : ∀ t ∈ tags, t.IsUnpaired := by
  rw [readTags_eq_ok_iff] at h
  match v, hv, h with
  | .list items, hv, h =>
    cases h
    simpa [Value.IsPlain, Value.plainItems_iff] using hv
  | .text t, hv, h =>
    rw [tagItems, Except.ok.injEq] at h
    exact isUnpaired_of_map_text_eq h.symm hv.lt
  | .record fields, hv, h =>
    simp only [tagItems, bind_eq_ok_iff, Except.ok.injEq] at h
    obtain ⟨firsts, hfirsts, htags⟩ := h
    have hlt : ∀ c ∈ firsts, c < 0x110000 := by
      refine forall_mem_of_forall₂ (mapM_eq_ok_iff.1 hfirsts) fun key hkey c hc => ?_
      obtain ⟨kv, hkv, rfl⟩ := List.mem_map.1 hkey
      split at hc
      case h_1 d e hkey =>
        cases hc
        exact (Value.plainFields_iff.1 hv.2 kv hkv).1.lt c (by simp [hkey])
      case h_2 => cases hc
    exact isUnpaired_of_map_text_eq htags.symm fun c hc => hlt c (List.mem_eraseDups.1 hc)

namespace Settings

theorem isPlain_toValue {v : Value} {s : Settings} (hv : v.IsPlain) (h : ofValue v = .ok s) :
    s.toValue.IsPlain := by
  obtain ⟨fields, rfl, hs⟩ := ofValue_eq_ok_iff.1 h
  have hempty : (Value.record []).IsPlain := ⟨by simp [Fields.keys], trivial⟩
  refine Value.isPlain_ofFields (by simp) ?_
  simp only [List.forall_mem_cons, List.not_mem_nil, false_implies, implies_true, and_true]
  refine ⟨?_, ?_, ?_, ?_, ?_⟩
  · exact ProblemSettings.isPlain_toValue (hv.2.getDefault _ hempty _) hs.problem
  · exact DataSettings.isPlain_toValue (hv.2.getDefault _ hempty _) hs.data
  · exact hs.seed ▸ hv.2.getDefault _ (Value.isPlain_int (by decide)) _
  · exact hs.description ▸ hv.2.getDefault (.text []) Text.isUnpaired_nil _
  · have htags := isUnpaired_of_readTags (hv.2.getDefault (.list []) trivial _) hs.tags
    simpa [Value.IsPlain, Value.plainItems_iff] using htags

end Settings

/-! ## Settings from documents -/

theorem Value.depthFields_map (entries : List (String × Value)) {k : ℕ}
    (h : ∀ entry ∈ entries, entry.2.depth ≤ k) : (ofFields entries).depth ≤ k + 1 := by
  rw [ofFields, depth, Nat.add_le_add_iff_right]
  induction entries with
  | nil => simp [depthFields]
  | cons entry rest ih =>
    rw [List.forall_mem_cons] at h
    simp only [List.map_cons, depthFields, max_le_iff]
    exact ⟨h.1, ih h.2⟩

theorem Number.depth_toValue (x : Number) : x.toValue.depth = 0 := by cases x <;> rfl

theorem Value.depth_ofString (s : String) : (ofString s).depth = 0 := rfl

theorem Value.depthItems_map_text (ts : List Text) : depthItems (ts.map .text) = 0 := by
  induction ts with
  | nil => rfl
  | cons t ts ih => simp [depthItems, depth, ih]

namespace Settings

/-- Settings are nested twice. -/
theorem depth_toValue_le (s : Settings) : s.toValue.depth ≤ 2 := by
  refine Value.depthFields_map s.entries (k := 1) ?_
  have hproblem : s.problem.toValue.depth ≤ 1 :=
    Value.depthFields_map s.problem.entries (k := 0)
      (by simp [ProblemSettings.entries, Number.depth_toValue, Value.depth_ofString])
  have hdata : s.data.toValue.depth ≤ 1 :=
    Value.depthFields_map s.data.entries (k := 0)
      (by simp [DataSettings.entries, Number.depth_toValue, Value.depth_ofString])
  simp [entries, hproblem, hdata, Number.depth_toValue, Value.depth, Value.depthItems_map_text]

theorem ofDocument_eq_ok_iff {t : Text} {s : Settings} :
    ofDocument t = .ok s ↔ ∃ v, Json.read t = .ok v ∧ ofValue v = .ok s := by
  rw [ofDocument, bind_eq_ok_iff]
  constructor
  · rintro ⟨v, hread, hs⟩
    refine ⟨v, ?_, ?_⟩
    · cases h : Json.read t <;> simp_all [Except.mapError]
    · cases h : ofValue v <;> simp_all [Except.mapError]
  · rintro ⟨v, hread, hs⟩
    exact ⟨v, by rw [hread]; rfl, by rw [hs]; rfl⟩

variable {t : Text} {s : Settings}

theorem isTyped_of_ofDocument (h : ofDocument t = .ok s) : s.IsTyped :=
  let ⟨_, _, hs⟩ := ofDocument_eq_ok_iff.1 h
  isTyped_of_ofValue hs

theorem isPlain_of_ofDocument (ht : t.IsScalar) (h : ofDocument t = .ok s) :
    s.toValue.sorted.IsPlain := by
  obtain ⟨v, hread, hs⟩ := ofDocument_eq_ok_iff.1 h
  exact (isPlain_toValue (Json.isPlain_of_read ht hread) hs).sorted

theorem depth_sorted_toValue_le (s : Settings) : s.toValue.sorted.depth ≤ Json.maxDepth := by
  rw [Value.depth_sorted]
  exact s.depth_toValue_le.trans (by decide)

/-- Settings that a document gives are given again by the document that is written for them, with
every number, truth value, text and tag as it was, and so they keep their fingerprint. -/
theorem ofDocument_toDocument (ht : t.IsScalar) (h : ofDocument t = .ok s) :
    ofDocument s.toDocument = .ok s ∧
      (ofDocument s.toDocument).map (·.toValue.fingerprint) = .ok s.toValue.fingerprint := by
  have hread := Json.read_indented (isPlain_of_ofDocument ht h) s.depth_sorted_toValue_le
  have hdocument : ofDocument s.toDocument = .ok s :=
    ofDocument_eq_ok_iff.2 ⟨_, hread, ofValue_sorted_toValue (isTyped_of_ofDocument h)⟩
  exact ⟨hdocument, by rw [hdocument]; rfl⟩

theorem ofDocument_toDocument_repeated_tags :
    ∃ s, ofDocument (Text.ofString
        "\x7b\"seed\":true,\"description\":\"\\ud83d\",\"tags\":[\"a\",\"a\"]\x7d") = .ok s ∧
      s.seed = .bool true ∧ s.description = [0xD83D] ∧ s.tags = [[97], [97]] ∧
      ofDocument s.toDocument = .ok s := by
  let v : Value := .ofFields [("seed", .bool true), ("description", .text [0xD83D]),
    ("tags", .list [.text [97], .text [97]])]
  have hcompact : Json.compact v = Text.ofString
      "\x7b\"seed\":true,\"description\":\"\\ud83d\",\"tags\":[\"a\",\"a\"]\x7d" := by
    decide +kernel
  have hplain : v.IsPlain := by
    have hunpaired {c : CodePoint} (hc : c < 0x110000) : Text.IsUnpaired [c] :=
      Text.isUnpaired_singleton hc
    exact Value.isPlain_ofFields (by decide)
      (by simp [Value.IsPlain, Value.isLeaf, Value.PlainItems, hunpaired])
  have hread := Json.read_compact hplain (by decide)
  rw [hcompact] at hread
  obtain ⟨s, hs, hseed, hdescription, htags⟩ : ∃ s, ofValue v = .ok s ∧ s.seed = .bool true ∧
      s.description = [0xD83D] ∧ s.tags = [[97], [97]] := ⟨_, rfl, rfl, rfl, rfl⟩
  have h := ofDocument_eq_ok_iff.2 ⟨v, hread, hs⟩
  exact ⟨s, h, hseed, hdescription, htags, (ofDocument_toDocument (Text.isScalar_ofString _) h).1⟩

end Settings

end PottsOracle
