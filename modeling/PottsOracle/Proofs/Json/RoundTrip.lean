import PottsOracle.Json.Printer
import PottsOracle.Proofs.Decimal.ReadBack
import PottsOracle.Proofs.Json.Row

/-!
# Values that are written are read back

Both forms of a document have the tokens of the value, and reading them gives the value again if its
texts have no pairs of surrogates, its integers are not too long and no record has two fields with
one key.
-/

namespace PottsOracle

namespace Fields

theorem set_eq_append {fields : Fields} {key : Text} (h : key ∉ fields.keys) (v : Value) :
    fields.set key v = fields ++ [(key, v)] := by
  induction fields with
  | nil => rfl
  | cons kv rest ih =>
    simp only [keys, List.map_cons, List.mem_cons, not_or] at h
    rw [set, if_neg (Ne.symm h.1), ih h.2, List.cons_append]

/-- A key that is new comes last, one that is there keeps its place. -/
theorem keys_set (fields : Fields) (key : Text) (v : Value) :
    (fields.set key v).keys =
      if key ∈ fields.keys then fields.keys else fields.keys ++ [key] := by
  by_cases h : key ∈ fields.keys
  · rw [if_pos h]
    induction fields with
    | nil => simp [keys] at h
    | cons kv rest ih =>
      rw [set]
      split_ifs with hkey
      · rfl
      · have hrest : key ∈ Fields.keys rest := (List.mem_cons.1 h).resolve_left (Ne.symm hkey)
        exact congrArg (kv.1 :: ·) (ih hrest)
  · rw [if_neg h, set_eq_append h, keys, List.map_append]
    rfl

theorem nodup_keys_set {fields : Fields} (h : fields.keys.Nodup) (key : Text) (v : Value) :
    (fields.set key v).keys.Nodup := by
  rw [keys_set]
  split_ifs with hkey
  · exact h
  · rw [← List.concat_eq_append]
    exact h.concat hkey

end Fields

namespace Value

mutual

/-- A value that is read back: its leaves and texts are, and the keys of its records differ. -/
def IsPlain : Value → Prop
  | .text t => t.IsUnpaired
  | .list items => PlainItems items
  | .record fields => (Fields.keys fields).Nodup ∧ PlainFields fields
  | v => v.isLeaf = true

/-- Every item of a list is read back. -/
def PlainItems : List Value → Prop
  | [] => True
  | v :: vs => v.IsPlain ∧ PlainItems vs

/-- Every field of a record is read back. -/
def PlainFields : Fields → Prop
  | [] => True
  | (k, v) :: rest => k.IsUnpaired ∧ v.IsPlain ∧ PlainFields rest

end

theorem plainItems_iff {items : List Value} : PlainItems items ↔ ∀ v ∈ items, v.IsPlain := by
  induction items with
  | nil => simp [PlainItems]
  | cons v vs ih => simp [PlainItems, ih]

theorem plainFields_iff {fields : Fields} :
    PlainFields fields ↔ ∀ kv ∈ fields, kv.1.IsUnpaired ∧ kv.2.IsPlain := by
  induction fields with
  | nil => simp [PlainFields]
  | cons kv rest ih => simp [PlainFields, ih, and_assoc]

theorem PlainFields.set {fields : Fields} {key : Text} {v : Value} (h : PlainFields fields)
    (hkey : key.IsUnpaired) (hv : v.IsPlain) : PlainFields (fields.set key v) := by
  induction fields with
  | nil => exact ⟨hkey, hv, trivial⟩
  | cons kv rest ih =>
    rw [Fields.set]
    split_ifs with hk
    · exact ⟨h.1, hv, h.2.2⟩
    · exact ⟨h.1, h.2.1, ih h.2.2⟩

mutual

/-- With one field for each key there is nothing to merge. -/
theorem IsPlain.merged_eq {v : Value} (h : v.IsPlain) : v.merged = v := by
  match v, h with
  | .null, _ | .bool _, _ | .int _, _ | .float _, _ | .text _, _ => rfl
  | .list items, h => rw [merged, PlainItems.mergedItems_eq h]
  | .record fields, h => rw [merged, PlainFields.mergedFields_eq [] h.2 h.1, List.nil_append]

theorem PlainItems.mergedItems_eq {items : List Value} (h : PlainItems items) :
    mergedItems items = items := by
  match items, h with
  | [], _ => rfl
  | v :: vs, h => rw [mergedItems, IsPlain.merged_eq h.1, PlainItems.mergedItems_eq h.2]

theorem PlainFields.mergedFields_eq {fields : Fields} (before : Fields) (h : PlainFields fields)
    (hkeys : (before.keys ++ fields.keys).Nodup) :
    mergedFields before fields = before ++ fields := by
  match fields, h with
  | [], _ => rw [mergedFields, List.append_nil]
  | (k, v) :: rest, h =>
    have hk : k ∉ before.keys := fun hmem =>
      (List.nodup_append'.1 hkeys).2.2 hmem (by simp [Fields.keys])
    have hkeys : (Fields.keys (before ++ [(k, v)]) ++ Fields.keys rest).Nodup := by
      simpa [Fields.keys] using hkeys
    rw [mergedFields, IsPlain.merged_eq h.2.1, Fields.set_eq_append hk,
      PlainFields.mergedFields_eq _ h.2.2 hkeys, List.append_assoc, List.singleton_append]

end

end Value

namespace Json

variable {rest : Text}

/-! ## What stands between the leaves -/

theorem tokens_mark {c : CodePoint} {token : Token} (hc : mark? c = some token) (s : Text) :
    tokens (c :: s) = token :: tokens s :=
  tokens_of_readToken? (by simp [readToken?, hc])

theorem tokens_newLine (depth : Nat) (s : Text) : tokens (newLine depth ++ s) = tokens s := by
  rw [newLine, List.cons_append, tokens_space (by decide)]
  induction 2 * depth with
  | zero => rfl
  | succ n ih => rw [List.replicate_succ, List.cons_append, tokens_space (by decide), ih]

theorem tokens_writeText {t : Text} (ht : t.IsUnpaired) (s : Text) :
    tokens (writeText t ++ s) = .text t :: tokens s :=
  tokens_of_readToken? (readToken?_writeText ht s)

theorem endsNumber_comma (s : Text) : EndsNumber (44 :: s) := by simp [EndsNumber, isDigit]

theorem endsNumber_closeList (s : Text) : EndsNumber (93 :: s) := by simp [EndsNumber, isDigit]

theorem endsNumber_closeRecord (s : Text) : EndsNumber (125 :: s) := by simp [EndsNumber, isDigit]

theorem endsNumber_newLine (depth : Nat) (s : Text) : EndsNumber (newLine depth ++ s) := by
  simp [EndsNumber, newLine, isDigit]

theorem readToken?_compact_of_isLeaf {v : Value} (hv : v.isLeaf = true) (hrest : EndsNumber rest) :
    readToken? (compact v ++ rest) = some (.leaf v, rest) := by
  match v, hv with
  | .null, _ | .bool true, _ | .bool false, _ =>
    simp [compact, writeBool, Text.ofString, readToken?, mark?, readWord?, words_eq]
  | .int n, hn => exact readToken?_ofInt hn hrest
  | .float x, _ => exact readToken?_write x hrest

theorem tokens_compact_of_isLeaf {v : Value} (hv : v.isLeaf = true) (hrest : EndsNumber rest) :
    tokens (compact v ++ rest) = row v ++ tokens rest := by
  rw [tokens_of_readToken? (readToken?_compact_of_isLeaf hv hrest), row_of_isLeaf hv,
    List.singleton_append]

/-! ## The compact form -/

-- What stands behind a value has to end a number; a comma, a bracket and a new line do.
mutual

theorem tokens_compact {v : Value} (hv : v.IsPlain) (rest : Text) (hrest : EndsNumber rest) :
    tokens (compact v ++ rest) = row v ++ tokens rest := by
  match v, hv with
  | .null, hv | .bool _, hv | .int _, hv | .float _, hv => exact tokens_compact_of_isLeaf hv hrest
  | .text t, ht => simpa [compact, row] using tokens_writeText ht rest
  | .list [], _ =>
    simp [compact, compactItems, row, tokens_mark (c := 91) rfl, tokens_mark (c := 93) rfl]
  | .list (v :: vs), h =>
    have hitems := tokens_compactItems h.1 h.2 rest
    simp [compact, row, tokens_mark (c := 91) rfl, hitems]
  | .record [], _ =>
    simp [compact, compactFields, row, tokens_mark (c := 123) rfl, tokens_mark (c := 125) rfl]
  | .record ((k, v) :: fields), h =>
    have hfields := tokens_compactFields h.2.1 h.2.2.1 h.2.2.2 rest
    simp [compact, row, tokens_mark (c := 123) rfl, hfields]
termination_by sizeOf v

theorem tokens_compactItems {v : Value} {vs : List Value} (hv : v.IsPlain)
    (hvs : Value.PlainItems vs) (rest : Text) :
    tokens (compactItems (v :: vs) ++ 93 :: rest) = row v ++ (moreItems vs ++ tokens rest) := by
  match vs, hvs with
  | [], _ =>
    rw [compactItems, tokens_compact hv _ (endsNumber_closeList rest), tokens_mark rfl]
    rfl
  | w :: ws, hvs =>
    have hitems := tokens_compactItems hvs.1 hvs.2 rest
    rw [compactItems]
    · simp only [List.append_assoc, List.cons_append]
      rw [tokens_compact hv _ (endsNumber_comma _), tokens_mark rfl, hitems]
      simp [moreItems]
    · simp
termination_by sizeOf (v :: vs)

theorem tokens_compactFields {k : Text} {v : Value} {fields : Fields} (hk : k.IsUnpaired)
    (hv : v.IsPlain) (hfields : Value.PlainFields fields) (rest : Text) :
    tokens (compactFields ((k, v) :: fields) ++ 125 :: rest) =
      .text k :: .colon :: (row v ++ (moreFields fields ++ tokens rest)) := by
  match fields, hfields with
  | [], _ =>
    rw [compactFields, List.append_assoc, tokens_writeText hk, List.cons_append, tokens_mark rfl,
      tokens_compact hv _ (endsNumber_closeRecord rest), tokens_mark rfl]
    rfl
  | (l, w) :: fields, hfields =>
    have hmore := tokens_compactFields hfields.1 hfields.2.1 hfields.2.2 rest
    rw [compactFields]
    · simp only [List.append_assoc, List.cons_append]
      rw [tokens_writeText hk, tokens_mark rfl, tokens_compact hv _ (endsNumber_comma _),
        tokens_mark rfl, hmore]
      simp [moreFields]
    · simp
termination_by sizeOf ((k, v) :: fields)

end

/-! ## The form with lines -/

mutual

theorem tokens_indented {v : Value} (hv : v.IsPlain) (depth : Nat) (rest : Text)
    (hrest : EndsNumber rest) : tokens (indented depth v ++ rest) = row v ++ tokens rest := by
  match v, hv with
  | .null, hv | .bool _, hv | .int _, hv | .float _, hv | .text _, hv =>
    exact tokens_compact hv rest hrest
  | .list [], _ =>
    simp [indented, row, tokens_mark (c := 91) rfl, tokens_mark (c := 93) rfl]
  | .list (v :: vs), h =>
    have hitems := tokens_indentedItems h.1 h.2 (depth + 1) depth rest
    simp [indented, row, tokens_mark (c := 91) rfl, tokens_newLine, hitems]
  | .record [], _ =>
    simp [indented, row, tokens_mark (c := 123) rfl, tokens_mark (c := 125) rfl]
  | .record ((k, v) :: fields), h =>
    have hfields := tokens_indentedFields h.2.1 h.2.2.1 h.2.2.2 (depth + 1) depth rest
    simp [indented, row, tokens_mark (c := 123) rfl, tokens_newLine, hfields]
termination_by sizeOf v

theorem tokens_indentedItems {v : Value} {vs : List Value} (hv : v.IsPlain)
    (hvs : Value.PlainItems vs) (depth outer : Nat) (rest : Text) :
    tokens (indentedItems depth (v :: vs) ++ (newLine outer ++ 93 :: rest)) =
      row v ++ (moreItems vs ++ tokens rest) := by
  match vs, hvs with
  | [], _ =>
    rw [indentedItems, tokens_indented hv _ _ (endsNumber_newLine _ _), tokens_newLine,
      tokens_mark rfl]
    rfl
  | w :: ws, hvs =>
    have hitems := tokens_indentedItems hvs.1 hvs.2 depth outer rest
    rw [indentedItems]
    · simp only [List.append_assoc, List.cons_append]
      rw [tokens_indented hv _ _ (endsNumber_comma _), tokens_mark rfl, tokens_newLine, hitems]
      simp [moreItems]
    · simp
termination_by sizeOf (v :: vs)

theorem tokens_indentedFields {k : Text} {v : Value} {fields : Fields} (hk : k.IsUnpaired)
    (hv : v.IsPlain) (hfields : Value.PlainFields fields) (depth outer : Nat) (rest : Text) :
    tokens (indentedFields depth ((k, v) :: fields) ++ (newLine outer ++ 125 :: rest)) =
      .text k :: .colon :: (row v ++ (moreFields fields ++ tokens rest)) := by
  match fields, hfields with
  | [], _ =>
    rw [indentedFields]
    simp only [List.append_assoc, List.cons_append]
    rw [tokens_writeText hk, tokens_mark rfl, tokens_space rfl,
      tokens_indented hv _ _ (endsNumber_newLine _ _), tokens_newLine, tokens_mark rfl]
    rfl
  | (l, w) :: fields, hfields =>
    have hmore := tokens_indentedFields hfields.1 hfields.2.1 hfields.2.2 depth outer rest
    rw [indentedFields]
    · simp only [List.append_assoc, List.cons_append]
      rw [tokens_writeText hk, tokens_mark rfl, tokens_space rfl,
        tokens_indented hv _ _ (endsNumber_comma _), tokens_mark rfl, tokens_newLine, hmore]
      simp [moreFields]
    · simp
termination_by sizeOf ((k, v) :: fields)

end

/-! ## Reading what is written -/

/-- The compact form of a value is read as the value. -/
theorem read_compact {v : Value} (hv : v.IsPlain) (hdepth : v.depth ≤ maxDepth) :
    read (compact v) = .ok v := by
  have htokens := tokens_compact hv [] endsNumber_nil
  rw [List.append_nil] at htokens
  rw [read_eq_ok_of_tokens (htokens.trans (by simp [tokens])) hdepth, hv.merged_eq]

/-- The form with lines is read as the value. -/
theorem read_indented {v : Value} (hv : v.IsPlain) (hdepth : v.depth ≤ maxDepth) :
    read (indented 0 v) = .ok v := by
  have htokens := tokens_indented hv 0 [] endsNumber_nil
  rw [List.append_nil] at htokens
  rw [read_eq_ok_of_tokens (htokens.trans (by simp [tokens])) hdepth, hv.merged_eq]

/-! ## What is read can be written -/

/-- A token with a text that has no pairs of surrogates, or with a leaf. -/
def Token.IsSound : Token → Prop
  | .text t => t.IsUnpaired
  | .leaf v => v.isLeaf = true
  | _ => True

theorem isSound_of_mem_tokens {t : Text} (ht : t.IsScalar) {token : Token} (h : token ∈ tokens t) :
    token.IsSound := by
  match token, h with
  | .text _, h => exact isUnpaired_of_mem_tokens ht h
  | .leaf _, h => exact isLeaf_of_mem_tokens h
  | .openList, _ | .closeList, _ | .openRecord, _ | .closeRecord, _ | .comma, _ | .colon, _
  | .longInteger, _ | .broken, _ => trivial

mutual

theorem isPlain_merged {v : Value} (h : ∀ token ∈ row v, token.IsSound) : v.merged.IsPlain := by
  match v, h with
  | .null, h | .bool _, h | .int _, h | .float _, h | .text _, h =>
    simpa [row, Token.IsSound, Value.merged, Value.IsPlain] using h
  | .list [], _ => simp [Value.merged, Value.mergedItems, Value.IsPlain, Value.PlainItems]
  | .list (v :: vs), h =>
    simp only [row, List.cons_append, List.forall_mem_cons, List.forall_mem_append] at h
    exact ⟨isPlain_merged h.2.1, plainItems_mergedItems h.2.2⟩
  | .record [], _ =>
    simp [Value.merged, Value.mergedFields, Value.IsPlain, Value.PlainFields, Fields.keys]
  | .record ((k, v) :: fields), h =>
    simp only [row, List.cons_append, List.forall_mem_cons, List.forall_mem_append] at h
    obtain ⟨_, hk, _, hv, hfields⟩ := h
    exact plainFields_mergedFields (Fields.set [] k v.merged)
      (Fields.nodup_keys_set (by simp [Fields.keys]) _ _)
      (Value.PlainFields.set trivial hk (isPlain_merged hv)) hfields

theorem plainItems_mergedItems {vs : List Value} (h : ∀ token ∈ moreItems vs, token.IsSound) :
    Value.PlainItems (Value.mergedItems vs) := by
  match vs, h with
  | [], _ => trivial
  | v :: vs, h =>
    simp only [moreItems, List.cons_append, List.forall_mem_cons, List.forall_mem_append] at h
    exact ⟨isPlain_merged h.2.1, plainItems_mergedItems h.2.2⟩

theorem plainFields_mergedFields (before : Fields) {fields : Fields} (hkeys : before.keys.Nodup)
    (hbefore : Value.PlainFields before) (h : ∀ token ∈ moreFields fields, token.IsSound) :
    (Value.record (Value.mergedFields before fields)).IsPlain := by
  match fields, h with
  | [], _ => exact ⟨hkeys, hbefore⟩
  | (k, v) :: fields, h =>
    simp only [moreFields, List.cons_append, List.forall_mem_cons, List.forall_mem_append] at h
    obtain ⟨_, hk, _, hv, hfields⟩ := h
    exact plainFields_mergedFields (before.set k v.merged)
      (Fields.nodup_keys_set hkeys _ _) (hbefore.set hk (isPlain_merged hv)) hfields

end

/-- A value that is read from scalar values is plain, so it can be written and read again. -/
theorem isPlain_of_read {t : Text} {v : Value} (ht : t.IsScalar) (h : read t = .ok v) :
    v.IsPlain := by
  obtain ⟨w, htokens, _, rfl⟩ := exists_row_of_read h
  exact isPlain_merged fun token htoken => isSound_of_mem_tokens ht (htokens ▸ htoken)

end Json

end PottsOracle
