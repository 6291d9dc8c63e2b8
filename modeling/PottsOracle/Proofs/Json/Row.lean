import PottsOracle.Json.Reader
import PottsOracle.Proofs.Json.Lexeme

/-!
# Rows of tokens

A value is written down as a row of tokens, here with every field of its records, also those that a
later field with the same key replaces.  The machine accepts exactly the rows of values that are not
nested too deep, and what it hands back is the value with its fields merged.
-/

namespace PottsOracle

namespace Value

mutual

/-- How many lists and records are open inside each other at most. -/
def depth : Value → Nat
  | .list items => depthItems items + 1
  | .record fields => depthFields fields + 1
  | .null | .bool _ | .int _ | .float _ | .text _ => 0

/-- The greatest depth of an item. -/
def depthItems : List Value → Nat
  | [] => 0
  | v :: vs => max v.depth (depthItems vs)

/-- The greatest depth of the value of a field. -/
def depthFields : Fields → Nat
  | [] => 0
  | (_, v) :: rest => max v.depth (depthFields rest)

end

mutual

/-- The value with one field for every key: its last value, in the place of its first. -/
def merged : Value → Value
  | .list items => .list (mergedItems items)
  | .record fields => .record (mergedFields [] fields)
  | v => v

/-- The items of a list, each one merged. -/
def mergedItems : List Value → List Value
  | [] => []
  | v :: vs => v.merged :: mergedItems vs

/-- Fields that are merged already, and then more of them. -/
def mergedFields (before : Fields) : Fields → Fields
  | [] => before
  | (k, v) :: rest => mergedFields (before.set k v.merged) rest

end

theorem depth_of_isLeaf {v : Value} (h : v.isLeaf = true) : v.depth = 0 := by
  cases v <;> simp_all [isLeaf, depth]

theorem merged_of_isLeaf {v : Value} (h : v.isLeaf = true) : v.merged = v := by
  cases v <;> simp_all [isLeaf, merged]

end Value

namespace Json

mutual

/-- The tokens of a value. -/
def row : Value → List Token
  | .text t => [.text t]
  | .list [] => [.openList, .closeList]
  | .list (v :: vs) => .openList :: row v ++ moreItems vs
  | .record [] => [.openRecord, .closeRecord]
  | .record ((k, v) :: rest) => .openRecord :: .text k :: .colon :: row v ++ moreFields rest
  | v => [.leaf v]

/-- The tokens of a list behind one of its items. -/
def moreItems : List Value → List Token
  | [] => [.closeList]
  | v :: vs => .comma :: row v ++ moreItems vs

/-- The tokens of a record behind one of its fields. -/
def moreFields : Fields → List Token
  | [] => [.closeRecord]
  | (k, v) :: rest => .comma :: .text k :: .colon :: row v ++ moreFields rest

end

theorem row_of_isLeaf {v : Value} (h : v.isLeaf = true) : row v = [.leaf v] := by
  cases v <;> simp_all [row, Value.isLeaf]

namespace State

@[simp]
theorem run_nil (s : State) : s.run [] = .ok s := rfl

@[simp]
theorem run_cons (s : State) (token : Token) (rest : List Token) :
    s.run (token :: rest) = (s.step token).bind (run · rest) := rfl

/-- The first token of a value is no end of a list, so it starts the first item. -/
theorem run_itemOrClose_row (v : Value) (stack : List Frame) (rest : List Token) :
    run (.itemOrClose stack) (row v ++ rest) =
      run (.value (.list [] :: stack)) (row v ++ rest) := by
  match v with
  | .null | .bool _ | .int _ | .float _ | .text _ => simp [row, step]
  | .list [] | .list (_ :: _) => simp [row, step]
  | .record [] | .record (_ :: _) => simp [row, step]

/-! ## The rows of values are accepted -/

mutual

theorem run_row (v : Value) (stack : List Frame) (rest : List Token)
    (h : stack.length + v.depth ≤ maxDepth) :
    run (.value stack) (row v ++ rest) = run (.complete v.merged stack) rest := by
  match v with
  | .null | .bool _ | .int _ | .float _ | .text _ =>
    simp [row, step, start, Value.merged, Except.bind]
  | .list [] =>
    have hopen : stack.length < maxDepth := by simp [Value.depth] at h; omega
    simp [row, step, start, deeper, hopen, Value.merged, Value.mergedItems, Except.bind]
  | .list (v :: vs) =>
    simp only [Value.depth, Value.depthItems] at h
    have hopen : stack.length < maxDepth := by omega
    have hv := run_row v (.list [] :: stack) (moreItems vs ++ rest) (by simp; omega)
    have hvs := run_moreItems vs [v.merged] stack rest (by omega)
    simp [row, step, start, deeper, hopen, Value.merged, Value.mergedItems, Except.bind,
      run_itemOrClose_row, hv, complete, hvs]
  | .record [] =>
    have hopen : stack.length < maxDepth := by simp [Value.depth] at h; omega
    simp [row, step, start, deeper, hopen, Value.merged, Value.mergedFields, Except.bind]
  | .record ((k, v) :: fields) =>
    simp only [Value.depth, Value.depthFields] at h
    have hopen : stack.length < maxDepth := by omega
    have hv := run_row v (.field [] k :: stack) (moreFields fields ++ rest) (by simp; omega)
    have hfields := run_moreFields fields (Fields.set [] k v.merged) stack rest (by omega)
    simp [row, step, start, deeper, hopen, Value.merged, Value.mergedFields, Except.bind, hv,
      complete, hfields]

theorem run_moreItems (vs items : List Value) (stack : List Frame) (rest : List Token)
    (h : stack.length + (Value.depthItems vs + 1) ≤ maxDepth) :
    run (.commaOrClose (.list items :: stack)) (moreItems vs ++ rest) =
      run (.complete (.list (items.reverse ++ Value.mergedItems vs)) stack) rest := by
  match vs with
  | [] => simp [moreItems, step, Except.bind, Value.mergedItems]
  | v :: vs =>
    simp only [Value.depthItems] at h
    have hv := run_row v (.list items :: stack) (moreItems vs ++ rest) (by simp; omega)
    have hvs := run_moreItems vs (v.merged :: items) stack rest (by omega)
    simp [moreItems, step, Except.bind, hv, complete, hvs, Value.mergedItems]

theorem run_moreFields (fields before : Fields) (stack : List Frame) (rest : List Token)
    (h : stack.length + (Value.depthFields fields + 1) ≤ maxDepth) :
    run (.commaOrClose (.record before :: stack)) (moreFields fields ++ rest) =
      run (.complete (.record (Value.mergedFields before fields)) stack) rest := by
  match fields with
  | [] => simp [moreFields, step, Except.bind, Value.mergedFields]
  | (k, v) :: fields =>
    simp only [Value.depthFields] at h
    have hv := run_row v (.field before k :: stack) (moreFields fields ++ rest) (by simp; omega)
    have hfields := run_moreFields fields (before.set k v.merged) stack rest (by omega)
    simp [moreFields, step, Except.bind, hv, complete, hfields, Value.mergedFields]

end

/-! ## Nothing else is accepted -/

theorem run_openList_eq_ok {stack : List Frame} {ts : List Token} {s : State}
    (h : run (.value stack) (.openList :: ts) = .ok s) :
    stack.length < maxDepth ∧ run (.itemOrClose stack) ts = .ok s := by
  by_cases hopen : stack.length < maxDepth <;>
    simp_all [step, start, deeper, Except.bind]

theorem run_openRecord_eq_ok {stack : List Frame} {ts : List Token} {s : State}
    (h : run (.value stack) (.openRecord :: ts) = .ok s) :
    stack.length < maxDepth ∧ run (.keyOrClose stack) ts = .ok s := by
  by_cases hopen : stack.length < maxDepth <;>
    simp_all [step, start, deeper, Except.bind]

/-- A list that does not end at once starts with an item. -/
theorem run_itemOrClose_eq_done {stack : List Frame} {ts : List Token} {w : Value}
    (h : run (.itemOrClose stack) ts = .ok (.done w)) :
    (∃ rest, ts = .closeList :: rest ∧ run (.complete (.list []) stack) rest = .ok (.done w)) ∨
      run (.value (.list [] :: stack)) ts = .ok (.done w) := by
  match ts with
  | [] => simp at h
  | token :: rest =>
    cases token
    case closeList => exact .inl ⟨rest, rfl, h⟩
    all_goals exact .inr h

/-- Behind the key of a field come a colon and the value. -/
theorem run_colon_eq_done {fields : Fields} {key : Text} {stack : List Frame} {ts : List Token}
    {w : Value} (h : run (.colon fields key stack) ts = .ok (.done w)) :
    ∃ rest, ts = .colon :: rest ∧
      run (.value (.field fields key :: stack)) rest = .ok (.done w) := by
  match ts with
  | [] => simp at h
  | token :: rest => cases token <;> simp_all [step, Except.bind]

/-- Behind the comma of a record comes a field. -/
theorem run_key_eq_done {fields : Fields} {stack : List Frame} {ts : List Token}
    {w : Value} (h : run (.key fields stack) ts = .ok (.done w)) :
    ∃ key rest, ts = .text key :: .colon :: rest ∧
      run (.value (.field fields key :: stack)) rest = .ok (.done w) := by
  match ts with
  | [] => simp at h
  | token :: rest =>
    cases token
    case text key =>
      obtain ⟨behind, rfl, hbehind⟩ := run_colon_eq_done h
      exact ⟨key, behind, rfl, hbehind⟩
    all_goals simp [step, Except.bind] at h

/-- A record that does not end at once starts with a field. -/
theorem run_keyOrClose_eq_done {stack : List Frame} {ts : List Token} {w : Value}
    (h : run (.keyOrClose stack) ts = .ok (.done w)) :
    (∃ rest, ts = .closeRecord :: rest ∧ run (.complete (.record []) stack) rest = .ok (.done w)) ∨
    ∃ key rest, ts = .text key :: .colon :: rest ∧
      run (.value (.field [] key :: stack)) rest = .ok (.done w) := by
  match ts with
  | [] => simp at h
  | token :: rest =>
    cases token
    case closeRecord => exact .inl ⟨rest, rfl, h⟩
    case text key =>
      obtain ⟨behind, rfl, hbehind⟩ := run_colon_eq_done h
      exact .inr ⟨key, behind, rfl, hbehind⟩
    all_goals simp [step, Except.bind] at h

-- The induction is on the count of tokens: each part of a value takes at least one.
mutual

theorem exists_row_of_run {stack : List Frame} {ts : List Token} {w : Value}
    (hleaf : ∀ v, .leaf v ∈ ts → v.isLeaf = true) (h : run (.value stack) ts = .ok (.done w))
    (hstack : stack.length ≤ maxDepth) :
    ∃ v rest, ts = row v ++ rest ∧ stack.length + v.depth ≤ maxDepth ∧
      run (.complete v.merged stack) rest = .ok (.done w) := by
  match ts, h with
  | .text t :: rest, h => exact ⟨.text t, rest, rfl, hstack, h⟩
  | .leaf v :: rest, h =>
    have hv := hleaf v (by simp)
    exact ⟨v, rest, by simp [row_of_isLeaf hv], by simpa [Value.depth_of_isLeaf hv] using hstack,
      by rwa [Value.merged_of_isLeaf hv]⟩
  | .openList :: ts, h =>
    obtain ⟨hopen, h⟩ := run_openList_eq_ok h
    obtain ⟨rest, rfl, h⟩ | h := run_itemOrClose_eq_done h
    · exact ⟨.list [], rest, rfl, hopen, h⟩
    obtain ⟨v, behind, rfl, hv, hbehind⟩ :=
      exists_row_of_run (fun v hv => hleaf v (.tail _ hv)) h hopen
    obtain ⟨vs, rest, rfl, hvs, hrest⟩ :=
      exists_moreItems_of_run (fun v hv => hleaf v (by simp [hv])) hopen hbehind
    refine ⟨.list (v :: vs), rest, by simp [row], ?_, by
      simpa [Value.merged, Value.mergedItems] using hrest⟩
    simp only [Value.depth, Value.depthItems, List.length_cons] at hv ⊢
    omega
  | .openRecord :: ts, h =>
    obtain ⟨hopen, h⟩ := run_openRecord_eq_ok h
    obtain ⟨rest, rfl, h⟩ | ⟨k, ts, rfl, h⟩ := run_keyOrClose_eq_done h
    · exact ⟨.record [], rest, rfl, hopen, h⟩
    obtain ⟨v, behind, rfl, hv, hbehind⟩ :=
      exists_row_of_run (fun v hv => hleaf v (by simp [hv])) h hopen
    obtain ⟨fields, rest, rfl, hfields, hrest⟩ :=
      exists_moreFields_of_run (fun v hv => hleaf v (by simp [hv])) hopen hbehind
    refine ⟨.record ((k, v) :: fields), rest, by simp [row], ?_, by
      simpa [Value.merged, Value.mergedFields] using hrest⟩
    simp only [Value.depth, Value.depthFields, List.length_cons] at hv ⊢
    omega
  | .closeList :: _, h | .closeRecord :: _, h | .comma :: _, h | .colon :: _, h
  | .longInteger :: _, h | .broken :: _, h => simp [step, start, Except.bind] at h
  | [], h => simp at h
termination_by ts.length

theorem exists_moreItems_of_run {items : List Value} {stack : List Frame} {ts : List Token}
    {w : Value} (hleaf : ∀ v, .leaf v ∈ ts → v.isLeaf = true) (hopen : stack.length < maxDepth)
    (h : run (.commaOrClose (.list items :: stack)) ts = .ok (.done w)) :
    ∃ vs rest, ts = moreItems vs ++ rest ∧ stack.length + (Value.depthItems vs + 1) ≤ maxDepth ∧
      run (.complete (.list (items.reverse ++ Value.mergedItems vs)) stack) rest =
        .ok (.done w) := by
  match ts, h with
  | .closeList :: rest, h =>
    exact ⟨[], rest, rfl, by simp [Value.depthItems]; omega, by
      simpa [step, Except.bind, Value.mergedItems] using h⟩
  | .comma :: ts, h =>
    simp only [run_cons, step, Except.bind] at h
    obtain ⟨v, behind, rfl, hv, hbehind⟩ :=
      exists_row_of_run (fun v hv => hleaf v (.tail _ hv)) h hopen
    obtain ⟨vs, rest, rfl, hvs, hrest⟩ :=
      exists_moreItems_of_run (fun v hv => hleaf v (by simp [hv])) hopen hbehind
    refine ⟨v :: vs, rest, by simp [moreItems], ?_, by simpa [Value.mergedItems] using hrest⟩
    simp only [Value.depthItems, List.length_cons] at hv ⊢
    omega
  | .openList :: _, h | .openRecord :: _, h | .closeRecord :: _, h | .colon :: _, h
  | .text _ :: _, h | .leaf _ :: _, h | .longInteger :: _, h | .broken :: _, h =>
    simp [step, Except.bind] at h
  | [], h => simp at h
termination_by ts.length

theorem exists_moreFields_of_run {before : Fields} {stack : List Frame} {ts : List Token}
    {w : Value} (hleaf : ∀ v, .leaf v ∈ ts → v.isLeaf = true) (hopen : stack.length < maxDepth)
    (h : run (.commaOrClose (.record before :: stack)) ts = .ok (.done w)) :
    ∃ fields rest, ts = moreFields fields ++ rest ∧
      stack.length + (Value.depthFields fields + 1) ≤ maxDepth ∧
      run (.complete (.record (Value.mergedFields before fields)) stack) rest = .ok (.done w) := by
  match ts, h with
  | .closeRecord :: rest, h =>
    exact ⟨[], rest, rfl, by simp [Value.depthFields]; omega, h⟩
  | .comma :: ts, h =>
    simp only [run_cons, step, Except.bind] at h
    obtain ⟨k, ts, rfl, h⟩ := run_key_eq_done h
    obtain ⟨v, behind, rfl, hv, hbehind⟩ :=
      exists_row_of_run (fun v hv => hleaf v (by simp [hv])) h hopen
    obtain ⟨fields, rest, rfl, hfields, hrest⟩ :=
      exists_moreFields_of_run (fun v hv => hleaf v (by simp [hv])) hopen hbehind
    refine ⟨(k, v) :: fields, rest, by simp [moreFields], ?_, by
      simpa [Value.mergedFields] using hrest⟩
    simp only [Value.depthFields, List.length_cons] at hv ⊢
    omega
  | .openList :: _, h | .openRecord :: _, h | .closeList :: _, h | .colon :: _, h
  | .text _ :: _, h | .leaf _ :: _, h | .longInteger :: _, h | .broken :: _, h =>
    simp [step, Except.bind] at h
  | [], h => simp at h
termination_by ts.length

end

end State

/-- A text of which the tokens are known is read if they are the row of a value that is not nested
too deep. -/
theorem read_eq_ok_of_tokens {t : Text} {v : Value} (ht : tokens t = row v)
    (hv : v.depth ≤ maxDepth) : read t = .ok v.merged := by
  have hrun := State.run_row v [] [] (by simpa using hv)
  rw [List.append_nil] at hrun
  simp [read, ht, hrun, State.complete]
  rfl

/-- What is read is the value of which the tokens are the row, merged. -/
theorem exists_row_of_read {t : Text} {w : Value} (h : read t = .ok w) :
    ∃ v, tokens t = row v ∧ v.depth ≤ maxDepth ∧ v.merged = w := by
  have hrun : State.run (.value []) (tokens t) = .ok (.done w) := by
    unfold read at h
    cases hs : State.run (.value []) (tokens t) with
    | error e => simp [hs, bind, Except.bind] at h
    | ok s => cases s <;> simp_all [bind, Except.bind]
  obtain ⟨v, rest, hrow, hdepth, hdone⟩ :=
    State.exists_row_of_run (fun _ => isLeaf_of_mem_tokens) hrun (Nat.zero_le _)
  match rest, hdone with
  | [], hdone =>
    simp only [State.complete, State.run_nil, Except.ok.injEq, State.done.injEq] at hdone
    exact ⟨v, by simpa using hrow, by simpa using hdepth, hdone⟩
  | token :: rest, hdone => simp [State.complete, State.step, Except.bind] at hdone

end Json

end PottsOracle
