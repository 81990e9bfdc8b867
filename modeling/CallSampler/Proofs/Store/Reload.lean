import CallSampler.Proofs.Capture.Bounds
import CallSampler.Proofs.Disk.Writing
import CallSampler.Proofs.Entries
import CallSampler.Proofs.Json.RoundTrip
import CallSampler.Proofs.Record.Codec
import CallSampler.Proofs.Store.Loading

/-!
# Reloading what was saved

A sample of a call nests one level more than the depth limit, and a file nests its samples in four
levels more: so up to a depth limit of 122 a file stays within what a reader accepts. That is the
invariant of every store that was loaded from a file and then recorded calls (`Durable`). A
store that has it is read back entry by entry after it was saved, and loading it again loses
nothing but the samples over the new capacity (`load_save`).
-/

namespace CallSampler

/-- The samples of a call are captured, down to a depth, from some arguments under the names that
the call supplies. -/
def Recording.Captured (maxDepth : Nat) (r : Recording) : Prop :=
  ∃ answer args w w', captureArguments answer maxDepth args r.paramNames w = (.ok r.samples, w')

/-- A call of a function of one parameter with an integer. -/
def Recording.ofInteger (name : String) (i : Int64) : Recording where
  name := name
  samples := [(0, .number (.integer i.toInt))]
  paramNames := ["x"]
  index_lt := by simp [wordLimit]

theorem Recording.captured_ofInteger (name : String) (i : Int64) (maxDepth : Nat) :
    (ofInteger name i).Captured maxDepth :=
  ⟨fun _ => pure none, { positional := [.int i], keywords := [] }, .empty, .empty, rfl⟩

theorem Recording.floatsReadBack_ofInteger (name : String) (i : Int64) :
    ∀ x ∈ (ofInteger name i).samples, x.2.FloatsReadBack :=
  List.forall_mem_singleton.mpr trivial

/-- The room that a file leaves for a sample. -/
abbrev sampleRoom : Nat := 123

namespace Store

variable {s : Store} {d d' : Disk} {path : Path}

/-! ## The invariant -/

/-- Every sample fits the room in a file, every index a machine word, and no slot is over the
capacity. -/
structure Durable (s : Store) : Prop where
  within : s.Every (Record.Within sampleRoom)
  bounded : s.Every (Record.Bounded s.capacity)

/-- Every float of every sample reads back from its text. -/
abbrev FloatsReadBack (s : Store) : Prop := s.Every Record.FloatsReadBack

/-- Whatever a file holds, what is loaded from it is durable. -/
theorem durable_load (d : Disk) (s : Store) : (s.load d).1.Durable where
  within := Every.load fun file hfile e he => by
    obtain ⟨entries, hw, rfl⟩ := FileEntries.exists_of_read hfile
    obtain ⟨⟨name, j⟩, hj, hmap⟩ := List.mem_filterMap.mp he
    obtain ⟨r, hr, rfl⟩ := Option.map_eq_some_iff.mp hmap
    have hjw : j.Within (sampleRoom + 3) := hw.parts (List.mem_map_of_mem hj)
    exact (Record.within_of_ofJson? hjw hr).trim fun i items h =>
      ⟨h.1, fun j hj => h.2 j (mem_of_mem_newest hj)⟩
  bounded := by
    rw [capacity_load]
    exact Every.load fun file _ e _ => Record.bounded_trim

/-- What is pushed was captured, and what is kept was there. -/
theorem mem_pushBounded {capacity : Nat} {items : List Json} {j k : Json}
    (h : k ∈ Record.pushBounded capacity items j) : k ∈ items ∨ k = j := by
  rcases List.mem_append.mp h with h | h
  · exact Or.inl (mem_of_mem_newest h)
  · exact Or.inr (List.mem_singleton.mp h)

/-- A property of samples is that of all samples of a record once it is that of those pushed. -/
theorem forall_pushBounded {P : Json → Prop} {capacity : Nat} {items : List Json} {j : Json}
    (hj : P j) (h : ∀ k ∈ items, P k) : ∀ k ∈ Record.pushBounded capacity items j, P k := by
  intro k hk
  rcases mem_pushBounded hk with hk | rfl
  · exact h k hk
  · exact hj

theorem within_count {capacity room : Nat} {old : Record} {r : Recording} (h : old.Within room)
    (hr : ∀ x ∈ r.samples, x.2.Within room) :
    (old.count capacity r.samples r.paramNames).Within room := by
  refine Record.Slots.count h r.paramNames fun x hx items hitems => ⟨r.index_lt x hx, ?_⟩
  rcases hitems with rfl | hitems
  · exact forall_pushBounded (hr x hx) (by simp)
  · exact forall_pushBounded (hr x hx) hitems.2

theorem samples_count {P : Json → Prop} {capacity : Nat} {old : Record} {r : Recording}
    (h : old.Slots fun _ items => ∀ j ∈ items, P j) (hr : ∀ x ∈ r.samples, P x.2) :
    (old.count capacity r.samples r.paramNames).Slots fun _ items => ∀ j ∈ items, P j := by
  refine Record.Slots.count h r.paramNames fun x hx items hitems => ?_
  rcases hitems with rfl | hitems
  · exact forall_pushBounded (hr x hx) (by simp)
  · exact forall_pushBounded (hr x hx) hitems

/-- What every sample of a store and of some calls has, every sample has after the calls. -/
theorem samples_recordAll {P : Json → Prop} {calls : List Recording}
    (h : s.Every fun r => r.Slots fun _ items => ∀ j ∈ items, P j)
    (hcalls : ∀ r ∈ calls, ∀ x ∈ r.samples, P x.2) :
    (s.recordAll calls).Every fun r => r.Slots fun _ items => ∀ j ∈ items, P j :=
  h.recordAll (fun _ _ => Record.slots_fresh _) fun r hr _ hold => samples_count hold (hcalls r hr)

/-- Captured calls need no more room than the depth limit gives them. -/
theorem within_recordAll {room : Nat} {calls : List Recording} (h : s.Every (Record.Within room))
    (hdepth : s.maxDepth + 1 ≤ room) (hcalls : ∀ r ∈ calls, r.Captured s.maxDepth) :
    (s.recordAll calls).Every (Record.Within room) := by
  refine h.recordAll (fun _ _ => Record.slots_fresh _) fun r hr old hold => ?_
  obtain ⟨answer, args, w, w', hcapture⟩ := hcalls r hr
  refine within_count hold fun x hx => ?_
  have hx := within_of_captureArguments hcapture x hx
  exact ⟨hx.1, Nat.le_trans hx.2 hdepth⟩

/-- Captured calls keep a store durable. -/
theorem Durable.recordAll {calls : List Recording} (h : s.Durable) (hdepth : s.maxDepth ≤ 122)
    (hcalls : ∀ r ∈ calls, r.Captured s.maxDepth) : (s.recordAll calls).Durable where
  within := within_recordAll h.within (Nat.succ_le_succ hdepth) hcalls
  bounded := by
    rw [capacity_recordAll]
    exact h.bounded.recordAll (fun _ _ => Record.slots_fresh _) fun r _ old hold =>
      Record.Bounded.count s.capacity_pos hold r.samples r.paramNames

theorem FloatsReadBack.recordAll {calls : List Recording} (h : s.FloatsReadBack)
    (hcalls : ∀ r ∈ calls, ∀ x ∈ r.samples, x.2.FloatsReadBack) :
    (s.recordAll calls).FloatsReadBack :=
  samples_recordAll h hcalls

/-! ## The file form -/

theorem keys_toJson :
    Entries.keys (s.entries.map fun e => (e.1, e.2.toJson)) = Entries.keys s.entries :=
  Entries.keys_map_value _ _

theorem within_toJson {room : Nat} (h : s.Every (Record.Within room)) :
    s.toJson.Within (room + 4) := by
  refine Json.within_object ⟨?_, fun e he => ?_⟩
  · rw [keys_toJson]
    exact s.distinct
  · obtain ⟨e', he', rfl⟩ := List.mem_map.mp he
    exact Record.within_toJson (h e' he')

/-- What holds of every sample and of all but floats holds everywhere in the document. -/
theorem everywhere_toJson {P : Json → Prop} (hP : ∀ j, (∀ x, j ≠ .number (.float x)) → P j)
    (h : s.Every fun r => r.Slots fun _ items => ∀ j ∈ items, j.Everywhere P) :
    s.toJson.Everywhere P := by
  refine Json.everywhere_object.mpr ⟨hP _ (by simp), fun e he => ?_⟩
  obtain ⟨e', he', rfl⟩ := List.mem_map.mp he
  exact Record.everywhere_toJson hP (h e' he')

theorem floatsReadBack_toJson (h : s.FloatsReadBack) : s.toJson.FloatsReadBack :=
  everywhere_toJson (fun _ => Json.floatProper_of_ne) h

/-- Every entry of a file that was written is accepted. -/
theorem ofEntries_toJson {room : Nat} (h : s.Every (Record.Within room)) :
    FileEntries.ofEntries (s.entries.map fun e => (e.1, e.2.toJson)) =
      { accepted := s.entries, dropped := [] } := by
  have hread : ∀ e ∈ s.entries, Record.ofJson? e.2.toJson = some e.2 := fun e he =>
    Record.ofJson?_toJson (h e he)
  have haccepted : (s.entries.map fun e => (e.1, e.2.toJson)).filterMap
      (fun e => (Record.ofJson? e.2).map fun r => (e.1, r)) = s.entries := by
    rw [List.filterMap_map]
    refine Entries.filterMap_eq_self_of_forall fun e he => ?_
    simp [hread e he]
  have hdropped : (s.entries.map fun e => (e.1, e.2.toJson)).filter
      (fun e => (Record.ofJson? e.2).isNone) = [] := by
    refine List.filter_eq_nil_iff.mpr fun e he => ?_
    obtain ⟨e', he', rfl⟩ := List.mem_map.mp he
    simp only [hread e' he', Option.isNone_some, Bool.false_eq_true, not_false_eq_true]
  rw [FileEntries.ofEntries, haccepted, hdropped, List.map_nil]

/-! ## Saving -/

/-- Nothing but an empty store is skipped. -/
theorem save_eq_skipped (h : s.save d = (.ok .skippedEmpty, d')) : s.entries = [] ∧ d' = d := by
  unfold save at h
  split at h
  next he =>
    cases h
    exact ⟨List.isEmpty_iff.mp he, rfl⟩
  next =>
    split at h
    next => cases h
    next => split at h <;> cases h

theorem save_of_makeParent {d₁ : Disk} (hs : s.entries ≠ []) (h : makeParent s.path d = (none, d₁))
    (hwrite : d₁.write s.path (.text s.toJson.pretty) = .ok d') :
    s.save d = (.ok (.written s.size), d') := by
  have hne : ¬s.isEmpty := fun he => hs (List.isEmpty_iff.mp he)
  rw [save, if_neg hne, h]
  simp only [hwrite]

theorem save_eq_written {n : Nat} (h : s.save d = (.ok (.written n), d')) :
    ∃ d₁, makeParent s.path d = (none, d₁) ∧
      d₁.write s.path (.text s.toJson.pretty) = .ok d' := by
  unfold save at h
  split at h
  next => cases h
  next =>
    split at h
    next => cases h
    next d₁ hmade =>
      split at h
      next hwrite =>
        cases h
        exact ⟨d₁, hmade, hwrite⟩
      next => cases h

/-- Where one store can be saved, so can any store of the same path. -/
theorem save_of_save {r : Store} {n : Nat} (hp : r.path = s.path) (hr : r.entries ≠ [])
    (h : s.save d = (.ok (.written n), d')) :
    ∃ d'', r.save d = (.ok (.written r.size), d'') ∧
      d''.read r.path = .ok (.text r.toJson.pretty) := by
  obtain ⟨d₁, hmade, hwrite⟩ := save_eq_written h
  obtain ⟨d₂, hd₂⟩ := Disk.write_of_write hwrite (.text r.toJson.pretty)
  rw [← hp] at hmade hd₂
  exact ⟨d₂, save_of_makeParent hr hmade hd₂, Disk.read_write hd₂⟩

theorem read_save {n : Nat} (h : s.save d = (.ok (.written n), d')) :
    d'.pathExists s.path ∧ d'.read s.path = .ok (.text s.toJson.pretty) := by
  obtain ⟨d₁, -, hwrite⟩ := save_eq_written h
  exact ⟨Disk.pathExists_write hwrite, Disk.read_write hwrite⟩

theorem save_congr {r : Store} (hp : r.path = s.path) (he : r.entries = s.entries) (d : Disk) :
    r.save d = s.save d := by
  have hempty : r.isEmpty = s.isEmpty := by rw [isEmpty, he, isEmpty]
  have hsize : r.size = s.size := by rw [size, he, size]
  have hjson : r.toJson = s.toJson := by rw [toJson, he, toJson]
  rw [save, save, hempty, hsize, hjson, hp]

/-! ## Loading what was saved -/

variable {n : Nat}

/-- A saved file is read as what its text is read as. -/
theorem fileEntries_eq_of_save (hsave : s.save d = (.ok (.written n), d')) :
    FileEntries.read d' s.path =
      match Json.ofText? Json.nestingLimit s.toJson.pretty with
      | none => .error (.malformed s.path)
      | some (.object entries) => .ok (some (.ofEntries entries))
      | some _ => .error (.notAnObject s.path) := by
  obtain ⟨hexists, hread⟩ := read_save hsave
  unfold FileEntries.read
  rw [hexists, Disk.readText, hread]
  rfl

/-- A saved file is read back to the entries of its store. -/
theorem fileEntries_save (h : s.Durable) (hf : s.FloatsReadBack)
    (hsave : s.save d = (.ok (.written n), d')) :
    FileEntries.read d' s.path = .ok (some { accepted := s.entries, dropped := [] }) := by
  have hw : s.toJson.Within Json.nestingLimit := within_toJson h.within
  rw [fileEntries_eq_of_save hsave, Json.ofText?_pretty hw.1 (floatsReadBack_toJson hf) hw.2]
  show Except.ok (some (FileEntries.ofEntries _)) = _
  rw [ofEntries_toJson h.within]

/-- A saved store is loaded again with every slot cut down to the new capacity. -/
theorem load_of_save (h : s.Durable) (hf : s.FloatsReadBack)
    (hsave : s.save d = (.ok (.written n), d')) (k depth : Nat) :
    (((fresh s.path k depth).load d').1.entries =
      s.entries.map fun e => (e.1, e.2.trim (max 1 k))) ∧
    ((fresh s.path k depth).load d').2 = ([], none) := by
  have hread := fileEntries_save h hf hsave
  rw [load_of_read (s := fresh s.path k depth) hread]
  exact ⟨entries_take s.distinct, rfl⟩

/-- Trimming to the capacity or more leaves the records of a durable store alone. -/
theorem map_trim (h : s.Durable) {k : Nat} (hk : s.capacity ≤ k) :
    (s.entries.map fun e => (e.1, e.2.trim k)) = s.entries := by
  have hid : ∀ e ∈ s.entries, (e.1, e.2.trim k) = id e := fun e he => by
    have hb : e.2.Bounded k := fun slot hslot => Nat.le_trans (h.bounded e he slot hslot) hk
    rw [Record.trim_of_bounded hb, id]
  rw [List.map_congr_left hid, List.map_id]

/-- What a store has in common with the one that it was loaded from, given its own capacity. -/
structure Reloads (capacity : Nat) (s r : Store) : Prop where
  names : r.names = s.names
  callCount : ∀ name, (r.get? name).map Record.callCount = (s.get? name).map Record.callCount
  paramNames : ∀ name, (r.get? name).map Record.paramNames = (s.get? name).map Record.paramNames
  slot : ∀ name index, ((r.get? name).bind fun x => x.samples? index) =
    ((s.get? name).bind fun x => x.samples? index).map (newest capacity)

theorem reloads_of_entries {r : Store} {k : Nat}
    (h : r.entries = s.entries.map fun e => (e.1, e.2.trim k)) : Reloads k s r := by
  have hget : ∀ name, r.get? name = (s.get? name).map (Record.trim k) := fun name => by
    rw [get?, h]
    exact Entries.find?_map_value _ _ _
  refine ⟨?_, fun name => ?_, fun name => ?_, fun name index => ?_⟩
  · rw [names, h]
    exact Entries.keys_map_value _ _
  · rw [hget]
    cases s.get? name <;> rfl
  · rw [hget]
    cases s.get? name <;> rfl
  · rw [hget]
    cases s.get? name with
    | none => rfl
    | some x => exact Record.samples?_trim index

/-- Loading undoes saving. A store that was made from whatever a file holds and then recorded
captured calls is loaded again, after a save that wrote it, with all names in order, all counts, all
parameter names and the newest samples of every slot; with no less capacity it is the same again,
down to the text that it is saved as. -/
theorem load_save {d₀ : Disk} {maxSamples maxDepth : Nat} {calls : List Recording}
    (hdepth : maxDepth ≤ 122) (hcalls : ∀ r ∈ calls, r.Captured maxDepth)
    (hs : s = ((fresh path maxSamples maxDepth).load d₀).1.recordAll calls)
    (hf : s.FloatsReadBack) (hsave : s.save d = (.ok (.written n), d')) (k depth : Nat) :
    let loaded := (fresh path k depth).load d'
    loaded.2 = ([], none) ∧ Reloads (max 1 k) s loaded.1 ∧
      (s.capacity ≤ k → loaded.1.snapshot = s.snapshot ∧
        loaded.1.toJson.pretty = s.toJson.pretty ∧ ∀ d₁, loaded.1.save d₁ = s.save d₁) := by
  have hpath : s.path = path := by
    rw [hs, path_recordAll, path_load]
    rfl
  have hd : s.Durable := by
    subst hs
    refine (durable_load d₀ _).recordAll ?_ ?_
    · rw [maxDepth_load]
      exact hdepth
    · rw [maxDepth_load]
      exact hcalls
  subst hpath
  obtain ⟨hentries, hnothing⟩ := load_of_save hd hf hsave k depth
  refine ⟨hnothing, reloads_of_entries hentries, fun hk => ?_⟩
  rw [map_trim hd (Nat.le_trans hk (Nat.le_max_right _ _))] at hentries
  refine ⟨by rw [snapshot, snapshot, hentries], by rw [toJson, toJson, hentries], fun d₁ => ?_⟩
  refine save_congr ?_ hentries d₁
  rw [path_load]
  rfl

/-- A store of two functions that recorded three integers. -/
def ofThreeIntegers : Store :=
  ((fresh { text := "samples.json" } 2 1).load (Disk.empty [])).1.recordAll
    [.ofInteger "f" 1, .ofInteger "g" 2, .ofInteger "f" 3]

theorem load_save_three_integers :
    let loaded := (fresh { text := "samples.json" } 1 0).load
      (ofThreeIntegers.save (Disk.empty [])).2
    loaded.2 = ([], none) ∧ Reloads 1 ofThreeIntegers loaded.1 ∧ loaded.1.names = ["f", "g"] := by
  have hcalls : ∀ r ∈ [Recording.ofInteger "f" 1, .ofInteger "g" 2, .ofInteger "f" 3],
      r.Captured 1 := by
    simp [Recording.captured_ofInteger]
  have hsave : ofThreeIntegers.save (Disk.empty []) =
      (.ok (.written 2), (ofThreeIntegers.save (Disk.empty [])).2) := Prod.ext (by rfl) rfl
  have hf : ofThreeIntegers.FloatsReadBack :=
    FloatsReadBack.recordAll (fun e he => by cases he) <| by
      simpa only [List.forall_mem_cons] using
        ⟨Recording.floatsReadBack_ofInteger "f" 1, Recording.floatsReadBack_ofInteger "g" 2,
          Recording.floatsReadBack_ofInteger "f" 3, by simp⟩
  obtain ⟨hnothing, hreloads, -⟩ := load_save (by decide) hcalls rfl hf hsave 1 0
  exact ⟨hnothing, hreloads, hreloads.names⟩

end Store

end CallSampler
