import PottsOracle.Proofs.Json.RoundTrip

/-!
# Sorted values

Sorting moves the fields of a record and changes nothing else: a field that is asked for by its key
is found as before.
-/

namespace PottsOracle

namespace Fields

theorem get?_cons (k key : Text) (v : Value) (rest : Fields) :
    Fields.get? ((k, v) :: rest) key = if k = key then some v else rest.get? key := by
  by_cases h : k = key <;> simp [get?, h]

theorem get?_eq_none_iff {fields : Fields} {key : Text} :
    fields.get? key = none ↔ key ∉ fields.keys := by
  induction fields with
  | nil => simp [get?, keys]
  | cons kv rest ih =>
    rw [get?_cons]
    split_ifs with h <;> simp_all [keys, eq_comm]

theorem mem_of_get?_eq_some {fields : Fields} {key : Text} {v : Value}
    (h : fields.get? key = some v) : (key, v) ∈ fields := by
  induction fields with
  | nil => simp [get?] at h
  | cons kv rest ih =>
    rw [get?_cons] at h
    split_ifs at h with hk
    · simp only [Option.some.injEq] at h
      simp [← hk, ← h]
    · exact .tail _ (ih h)

/-- Where keys differ, every field is found. -/
theorem get?_eq_some_iff {fields : Fields} (hkeys : fields.keys.Nodup) {key : Text} {v : Value} :
    fields.get? key = some v ↔ (key, v) ∈ fields := by
  refine ⟨mem_of_get?_eq_some, fun hmem => ?_⟩
  induction fields with
  | nil => simp at hmem
  | cons kv rest ih =>
    have hcons := List.nodup_cons.1 hkeys
    rw [get?_cons]
    rcases List.mem_cons.1 hmem with heq | hmem
    · simp [← heq]
    · have hne : kv.1 ≠ key := by
        rintro rfl
        exact hcons.1 (List.mem_map.2 ⟨_, hmem, rfl⟩)
      rw [if_neg hne, ih hcons.2 hmem]

/-- Where keys differ, the order of the fields does not matter. -/
theorem get?_eq_of_perm {fields fields' : Fields} (h : fields.Perm fields')
    (hkeys : fields.keys.Nodup) (key : Text) : fields.get? key = fields'.get? key := by
  have hkeys' : fields'.keys.Nodup := (h.map Prod.fst).nodup_iff.1 hkeys
  ext v
  rw [get?_eq_some_iff hkeys, get?_eq_some_iff hkeys', h.mem_iff]

end Fields

namespace Value

theorem insertSorted_perm (key : Text) (v : Value) (fields : Fields) :
    (insertSorted key v fields).Perm ((key, v) :: fields) := by
  induction fields with
  | nil => exact .refl _
  | cons kv rest ih =>
    rw [insertSorted]
    split_ifs
    · exact .refl _
    · exact (ih.cons kv).trans (.swap _ _ _)

theorem sortedFields_perm (fields : Fields) :
    (sortedFields fields).Perm (fields.map fun kv => (kv.1, kv.2.sorted)) := by
  induction fields with
  | nil => exact .refl _
  | cons kv rest ih =>
    rw [sortedFields, List.map_cons]
    exact (insertSorted_perm _ _ _).trans (ih.cons _)

theorem sortedItems_eq_map (items : List Value) : sortedItems items = items.map sorted := by
  induction items with
  | nil => rfl
  | cons v vs ih => rw [sortedItems, ih, List.map_cons]

theorem keys_sortedFields_perm (fields : Fields) :
    (Fields.keys (sortedFields fields)).Perm (Fields.keys fields) := by
  have h := (sortedFields_perm fields).map Prod.fst
  rwa [List.map_map] at h

/-- A sorted record has the same fields, with sorted values. -/
theorem get?_sortedFields {fields : Fields} (hkeys : (Fields.keys fields).Nodup) (key : Text) :
    Fields.get? (sortedFields fields) key = (Fields.get? fields key).map sorted := by
  rw [Fields.get?_eq_of_perm (sortedFields_perm fields)
    ((keys_sortedFields_perm fields).nodup_iff.2 hkeys)]
  clear hkeys
  induction fields with
  | nil => rfl
  | cons kv rest ih =>
    rw [List.map_cons, Fields.get?_cons, Fields.get?_cons, ih]
    split_ifs <;> rfl

theorem PlainFields.insertSorted {key : Text} {v : Value} {fields : Fields} (hkey : key.IsUnpaired)
    (hv : v.IsPlain) (h : PlainFields fields) : PlainFields (insertSorted key v fields) := by
  rw [plainFields_iff] at h ⊢
  intro kv hkv
  rcases List.mem_cons.1 ((insertSorted_perm key v fields).mem_iff.1 hkv) with rfl | hkv
  · exact ⟨hkey, hv⟩
  · exact h kv hkv

mutual

/-- A sorted value is as plain as the value. -/
theorem IsPlain.sorted {v : Value} (h : v.IsPlain) : v.sorted.IsPlain := by
  match v, h with
  | .null, h | .bool _, h | .int _, h | .float _, h | .text _, h => simpa [Value.sorted] using h
  | .list items, h => exact PlainItems.sortedItems h
  | .record fields, h =>
    exact ⟨(keys_sortedFields_perm fields).nodup_iff.2 h.1, PlainFields.sortedFields h.2⟩

theorem PlainItems.sortedItems {items : List Value} (h : PlainItems items) :
    PlainItems (sortedItems items) := by
  match items, h with
  | [], _ => trivial
  | v :: vs, h => exact ⟨IsPlain.sorted h.1, PlainItems.sortedItems h.2⟩

theorem PlainFields.sortedFields {fields : Fields} (h : PlainFields fields) :
    PlainFields (sortedFields fields) := by
  match fields, h with
  | [], _ => trivial
  | (k, v) :: rest, h =>
    exact PlainFields.insertSorted h.1 (IsPlain.sorted h.2.1) (PlainFields.sortedFields h.2.2)

end

theorem depthFields_insertSorted (key : Text) (v : Value) (fields : Fields) :
    depthFields (insertSorted key v fields) = max v.depth (depthFields fields) := by
  induction fields with
  | nil => simp [insertSorted, depthFields]
  | cons kv rest ih =>
    rw [insertSorted]
    split_ifs
    · rfl
    · simp only [depthFields, ih]
      omega

mutual

/-- Sorting does not nest a value any deeper. -/
theorem depth_sorted (v : Value) : v.sorted.depth = v.depth := by
  match v with
  | .null | .bool _ | .int _ | .float _ | .text _ => rfl
  | .list items => simp only [sorted, depth, depthItems_sortedItems items]
  | .record fields => simp only [sorted, depth, depthFields_sortedFields fields]

theorem depthItems_sortedItems (items : List Value) :
    depthItems (sortedItems items) = depthItems items := by
  match items with
  | [] => rfl
  | v :: vs => simp only [sortedItems, depthItems, depth_sorted v, depthItems_sortedItems vs]

theorem depthFields_sortedFields (fields : Fields) :
    depthFields (sortedFields fields) = depthFields fields := by
  match fields with
  | [] => rfl
  | (k, v) :: rest =>
    simp only [sortedFields, depthFields, depthFields_insertSorted, depth_sorted v,
      depthFields_sortedFields rest]

end

end Value

end PottsOracle
