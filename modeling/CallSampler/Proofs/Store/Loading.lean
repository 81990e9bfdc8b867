import CallSampler.Store
import CallSampler.Proofs.Json.Reading
import CallSampler.Proofs.Record.Slots

/-!
# What loading and recording do to the entries

A file that is read has no name twice, since no object that is read has a key twice. So loading
takes over every accepted entry, in order and trimmed, and nothing is overwritten; recording changes
the record of one name and adds it at the end if it is new. A property of records that trimming and
counting keep therefore holds of every record of every store (`Every.load`, `Every.recordAll`).
-/

namespace CallSampler

variable {d : Disk} {path : Path} {file : FileEntries}

namespace FileEntries

/-- The entries of a file that is read come from a document within the reader's limit. -/
theorem exists_of_read (h : read d path = .ok (some file)) :
    ∃ entries, (Json.object entries).Within Json.nestingLimit ∧ file = .ofEntries entries := by
  unfold read at h
  split at h
  next => cases h
  next =>
    split at h
    next => cases h
    next text _ =>
      split at h
      next => cases h
      next entries hj =>
        cases h
        exact ⟨entries, Json.within_of_ofText? hj, rfl⟩
      next => cases h

theorem keys_ofEntries (entries : List (String × Json)) :
    Entries.keys (ofEntries entries).accepted =
      Entries.keys (entries.filter fun e => (Record.ofJson? e.2).isSome) := by
  simp only [ofEntries]
  induction entries with
  | nil => rfl
  | cons e rest ih =>
    cases hr : Record.ofJson? e.2 <;> simp [hr, ih]

/-- No name is accepted twice. -/
theorem nodup_of_read (h : read d path = .ok (some file)) : (Entries.keys file.accepted).Nodup := by
  obtain ⟨entries, hw, rfl⟩ := exists_of_read h
  rw [keys_ofEntries]
  exact (Json.wellFormed_object.mp hw.1).1.sublist (List.filter_sublist.map _)

end FileEntries

namespace Store

variable {s : Store}

/-! ## Loading -/

/-- Distinct names are taken over in order. -/
theorem entries_take {entries : List (String × Record)} (h : (Entries.keys entries).Nodup) :
    (s.take entries).entries = entries.map fun e => (e.1, e.2.trim s.capacity) :=
  Entries.ofAssignments_of_nodup (by rwa [Entries.keys_map_value])

theorem load_of_read (h : FileEntries.read d s.path = .ok (some file)) :
    s.load d = (s.take file.accepted, file.dropped, none) := by
  rw [load, h]

@[simp] theorem path_load : (s.load d).1.path = s.path := by
  unfold load
  split <;> rfl

@[simp] theorem capacity_load : (s.load d).1.capacity = s.capacity := by
  unfold load
  split <;> rfl

@[simp] theorem maxDepth_load : (s.load d).1.maxDepth = s.maxDepth := by
  unfold load
  split <;> rfl

/-! ## Recording -/

@[simp] theorem path_recordAll (calls : List Recording) : (s.recordAll calls).path = s.path := by
  induction calls generalizing s with
  | nil => rfl
  | cons r rest ih => exact ih

@[simp] theorem capacity_recordAll (calls : List Recording) :
    (s.recordAll calls).capacity = s.capacity := by
  induction calls generalizing s with
  | nil => rfl
  | cons r rest ih => exact ih

@[simp] theorem maxDepth_recordAll (calls : List Recording) :
    (s.recordAll calls).maxDepth = s.maxDepth := by
  induction calls generalizing s with
  | nil => rfl
  | cons r rest ih => exact ih

theorem recordAll_append (first second : List Recording) :
    s.recordAll (first ++ second) = (s.recordAll first).recordAll second :=
  List.foldl_append

/-- The record of no other name changes. -/
theorem get?_change (label : String) (paramNames : List String) (f : Record → Record)
    (name : String) : (s.change label paramNames f).get? name =
      if label = name then some (f ((s.get? label).getD (.fresh paramNames))) else s.get? name := by
  have h := Entries.find?_put label name (f ((s.get? label).getD (.fresh paramNames))) s.entries
  simp only [beq_iff_eq] at h
  exact h

theorem get?_apply (label : String) (samples : List Sample) (paramNames : List String)
    (name : String) :
    (s.apply label samples paramNames).get? name =
      if label = name then
        some (((s.get? label).getD (.fresh paramNames)).count s.capacity samples paramNames)
      else s.get? name :=
  get?_change label paramNames (Record.count s.capacity samples paramNames) name

theorem get?_record (r : Recording) (name : String) :
    (s.record r).get? name =
      if r.name = name then
        some (((s.get? r.name).getD (.fresh r.paramNames)).count s.capacity r.samples r.paramNames)
      else s.get? name :=
  get?_apply r.name r.samples r.paramNames name

/-- A name keeps its place, and a new one is last. -/
theorem names_change (label : String) (paramNames : List String) (f : Record → Record) :
    (s.change label paramNames f).names =
      if label ∈ s.names then s.names else s.names ++ [label] := by
  have h := Entries.keys_put (· == ·) label (f ((s.get? label).getD (.fresh paramNames))) s.entries
  have hmem : (s.entries.any fun e => e.1 == label) = true ↔ label ∈ s.names := by
    simp [names, Entries.keys]
  simp only [hmem] at h
  exact h

theorem names_apply (label : String) (samples : List Sample) (paramNames : List String) :
    (s.apply label samples paramNames).names =
      if label ∈ s.names then s.names else s.names ++ [label] :=
  names_change label paramNames (Record.count s.capacity samples paramNames)

/-! ## A property of all records -/

/-- Every record has a property. -/
def Every (P : Record → Prop) (s : Store) : Prop := ∀ e ∈ s.entries, P e.2

variable {P : Record → Prop}

theorem Every.get? (h : s.Every P) {name : String} {r : Record} (hr : s.get? name = some r) :
    P r :=
  h _ (Entries.mem_of_find? hr)

/-- A property of records that trimming keeps is that of a loaded store. -/
theorem Every.load (h : ∀ file, FileEntries.read d s.path = .ok (some file) →
    ∀ e ∈ file.accepted, P (e.2.trim s.capacity)) : (s.load d).1.Every P := by
  intro e he
  unfold Store.load at he
  split at he
  next => cases he
  next file hfile =>
    rw [entries_take (FileEntries.nodup_of_read hfile)] at he
    obtain ⟨e', he', rfl⟩ := List.mem_map.mp he
    exact h file hfile e' he'
  next => cases he

theorem Every.record (h : s.Every P) {r : Recording} (hfresh : P (.fresh r.paramNames))
    (hcount : ∀ old, P old → P (old.count s.capacity r.samples r.paramNames)) :
    (s.record r).Every P := by
  intro e he
  rcases Entries.mem_put he with hv | he
  · rw [hv]
    apply hcount
    cases hr : s.get? r.name with
    | none => exact hfresh
    | some old => exact h.get? hr
  · exact h e he

/-- A property of records that counting keeps is that of a store after any calls. -/
theorem Every.recordAll {calls : List Recording} (h : s.Every P)
    (hfresh : ∀ r ∈ calls, P (.fresh r.paramNames))
    (hcount : ∀ r ∈ calls, ∀ old, P old → P (old.count s.capacity r.samples r.paramNames)) :
    (s.recordAll calls).Every P := by
  induction calls generalizing s with
  | nil => exact h
  | cons r rest ih =>
    obtain ⟨hf, hfs⟩ := List.forall_mem_cons.mp hfresh
    obtain ⟨hc, hcs⟩ := List.forall_mem_cons.mp hcount
    exact ih (h.record hf hc) hfs hcs

end Store

end CallSampler
