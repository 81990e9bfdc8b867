import CallSampler.Config
import CallSampler.Proofs.Capture.Depths
import CallSampler.Proofs.Json.Limit
import CallSampler.Proofs.Store.Reload

/-!
# How deep a saved file nests

Accepted settings bound the depth of captured arguments by any number at all, while a reader accepts
127 nested arrays and objects, four of which are the file's own. So a run can write a file that no
later run reads. Which stores are read again is a matter of their samples alone: if none nests
deeper than 123, every function is read again, and if one does, the whole file is refused
(`read_save_iff`). A depth limit of up to 122 keeps all samples within that bound; with every
greater limit there is a single call whose file is refused (`unreadable_nested`).
-/

namespace CallSampler

/-! ## Nesting -/

namespace Record

variable {r : Record} {room : Nat}

/-- No sample nests deeper than there is room. -/
abbrev Shallow (room : Nat) (r : Record) : Prop :=
  r.Slots fun _ items => ∀ j ∈ items, j.nesting ≤ room

abbrev Legible (r : Record) : Prop := r.Slots fun _ items => ∀ j ∈ items, j.Legible

/-- The record with every sample as it is read again. -/
def reread (r : Record) : Record :=
  { r with
    slots := r.slots.map fun slot => (slot.1, slot.2.map Json.reread)
    ascending := by
      rw [Entries.Ascending, Entries.keys_map_value]
      exact r.ascending }

theorem toJson_reread (r : Record) : r.toJson.reread = r.reread.toJson := by
  simp [toJson, reread, Function.comp_def]

theorem nesting_toJson_le : r.toJson.nesting ≤ room + 3 ↔ r.Shallow room := by
  have hnames : (Json.array (r.paramNames.map .string)).nesting ≤ room + 2 := by
    refine Json.nesting_array_le.mpr fun j hj => ?_
    obtain ⟨s, -, rfl⟩ := List.mem_map.mp hj
    exact Nat.zero_le _
  have hcount : (Json.ofNat r.callCount.toNat).nesting ≤ room + 2 := Nat.zero_le _
  simp only [toJson, Json.nesting_object_le, List.forall_mem_cons, List.forall_mem_map, hnames,
    hcount, Json.nesting_array_le, Shallow, Slots]
  simp

theorem Within.reread (h : r.Within room) (hl : r.Legible) : r.reread.Within room := by
  intro slot hslot
  obtain ⟨old, hold, rfl⟩ := List.mem_map.mp hslot
  obtain ⟨hi, hitems⟩ := h old hold
  refine ⟨hi, List.forall_mem_map.mpr fun j hj => ?_⟩
  have hn := Json.nesting_reread j
  exact ⟨(hitems j hj).1.reread (hl old hold j hj), hn ▸ (hitems j hj).2⟩

end Record

namespace Store

variable {s : Store} {d d' : Disk} {room n : Nat}

/-- The text of every float of every sample is that of a number. -/
abbrev Legible (s : Store) : Prop := s.Every Record.Legible

/-- The store with every record as it is read again. -/
def reread (s : Store) : Store :=
  { s with
    entries := s.entries.map fun e => (e.1, e.2.reread)
    distinct := by
      rw [Entries.keys_map_value]
      exact s.distinct }

theorem toJson_reread (s : Store) : s.toJson.reread = s.reread.toJson := by
  simp [toJson, reread, Record.toJson_reread, Function.comp_def]

theorem nesting_toJson_le : s.toJson.nesting ≤ room + 4 ↔ s.Every (Record.Shallow room) := by
  simp only [toJson, Json.nesting_object_le, List.forall_mem_map, Record.nesting_toJson_le, Every]

/-- What reads back exactly can be read. -/
theorem FloatsReadBack.legible (h : s.FloatsReadBack) : s.Legible :=
  fun e he slot hslot j hj => (h e he slot hslot j hj).legible

theorem within_reread (h : s.Every (Record.Within room)) (hl : s.Legible) :
    s.reread.Every (Record.Within room) := by
  intro e he
  obtain ⟨e', he', rfl⟩ := List.mem_map.mp he
  exact (h e' he').reread (hl e' he')

/-- A saved file is read again, every function of it, unless it nests too deep. -/
theorem fileEntries_of_save (h : s.Every (Record.Within room)) (hl : s.Legible)
    (hsave : s.save d = (.ok (.written n), d')) :
    FileEntries.read d' s.path =
      if s.toJson.nesting ≤ Json.nestingLimit then
        .ok (some { accepted := s.reread.entries, dropped := [] })
      else .error (.malformed s.path) := by
  have hlegible : s.toJson.Legible := everywhere_toJson (fun _ => Json.numberLegible_of_ne) hl
  rw [fileEntries_eq_of_save hsave, Json.ofText?_pretty_eq (within_toJson h).1 hlegible]
  by_cases hle : s.toJson.nesting ≤ Json.nestingLimit
  · have hentries := ofEntries_toJson (within_reread h hl)
    rw [if_pos hle, if_pos hle, toJson_reread]
    show Except.ok (some (FileEntries.ofEntries _)) = _
    rw [hentries]
  · rw [if_neg hle, if_neg hle]

/-! ## Accepted settings -/

section Settings

variable {c : Config} {d₀ : Disk} {calls : List Recording}

/-- Whatever the depth limit is, there is some room that all samples of a run fit. -/
theorem within_of_run (d₀ : Disk) (hcalls : ∀ r ∈ calls, r.Captured c.maxDepth) :
    ((c.store.load d₀).1.recordAll calls).Every
      (Record.Within (max sampleRoom (c.maxDepth + 1))) := by
  have hloaded : (c.store.load d₀).1.Every (Record.Within (max sampleRoom (c.maxDepth + 1))) := by
    intro e he slot hslot
    obtain ⟨hi, hitems⟩ := (durable_load d₀ c.store).within e he slot hslot
    refine ⟨hi, fun j hj => ⟨(hitems j hj).1, Nat.le_trans (hitems j hj).2 ?_⟩⟩
    exact Nat.le_max_left _ _
  refine within_recordAll hloaded ?_ ?_
  · rw [maxDepth_load]
    exact Nat.le_max_right _ _
  · rw [maxDepth_load]
    exact hcalls

/-- Up to a depth limit of 122 no sample of a run needs more room than a file leaves. -/
theorem shallow_of_run (hdepth : c.maxDepth ≤ 122) (d₀ : Disk)
    (hcalls : ∀ r ∈ calls, r.Captured c.maxDepth) :
    ((c.store.load d₀).1.recordAll calls).Every (Record.Shallow sampleRoom) := by
  have hroom : max sampleRoom (c.maxDepth + 1) = sampleRoom := by
    unfold sampleRoom
    omega
  have hwithin := within_of_run d₀ hcalls
  rw [hroom] at hwithin
  exact fun e he slot hslot j hj => ((hwithin e he slot hslot).2 j hj).2

/-- What a written file is read as, by how deep its document nests. -/
theorem fileEntries_of_run (d₀ : Disk) (hcalls : ∀ r ∈ calls, r.Captured c.maxDepth)
    (hs : s = (c.store.load d₀).1.recordAll calls) (hl : s.Legible)
    (hsave : s.save d = (.ok (.written n), d')) :
    FileEntries.read d' c.cacheFile =
      if s.toJson.nesting ≤ Json.nestingLimit then
        .ok (some { accepted := s.reread.entries, dropped := [] })
      else .error (.malformed c.cacheFile) := by
  have hpath : s.path = c.cacheFile := by
    rw [hs, path_recordAll, path_load]
    rfl
  have hwithin := within_of_run d₀ hcalls
  rw [← hs] at hwithin
  rw [← hpath]
  exact fileEntries_of_save hwithin hl hsave

/-- Whether a written file is read again. Whatever the settings, the first content of the file and
the recorded calls: if no sample nests deeper than the room that the file leaves, then every saved
function is read again, in order and with nothing changed but the rounding of floats; if some sample
does, then the whole file is refused. The first is the case whenever the depth limit is at most
122. -/
theorem read_save_iff (d₀ : Disk) (hcalls : ∀ r ∈ calls, r.Captured c.maxDepth)
    (hs : s = (c.store.load d₀).1.recordAll calls) (hl : s.Legible)
    (hsave : s.save d = (.ok (.written n), d')) :
    (s.Every (Record.Shallow sampleRoom) → FileEntries.read d' c.cacheFile =
      .ok (some { accepted := s.entries.map fun e => (e.1, e.2.reread), dropped := [] })) ∧
    (¬s.Every (Record.Shallow sampleRoom) →
      FileEntries.read d' c.cacheFile = .error (.malformed c.cacheFile)) ∧
    (c.maxDepth ≤ 122 → s.Every (Record.Shallow sampleRoom)) := by
  have hread := fileEntries_of_run d₀ hcalls hs hl hsave
  have hnesting : s.toJson.nesting ≤ Json.nestingLimit ↔ s.Every (Record.Shallow sampleRoom) :=
    nesting_toJson_le
  refine ⟨fun hshallow => ?_, fun hdeep => ?_, fun hdepth => ?_⟩
  · rw [hread, if_pos (hnesting.mpr hshallow)]
    rfl
  · rw [hread, if_neg (mt hnesting.mp hdeep)]
  · rw [hs]
    exact shallow_of_run hdepth d₀ hcalls

theorem read_save_iff_three_integers :
    let c : Config := { Config.ofPaths { text := "samples.json" } { text := "/" } with
      maxSamples := 2, maxDepth := 1 }
    FileEntries.read (ofThreeIntegers.save (Disk.empty [])).2 c.cacheFile =
      .ok (some { accepted := ofThreeIntegers.entries.map fun e => (e.1, e.2.reread)
                  dropped := [] }) := by
  intro c
  have hcalls : ∀ r ∈ [Recording.ofInteger "f" 1, .ofInteger "g" 2, .ofInteger "f" 3],
      r.Captured c.maxDepth := by
    simp [Recording.captured_ofInteger]
  have hsave : ofThreeIntegers.save (Disk.empty []) =
      (.ok (.written 2), (ofThreeIntegers.save (Disk.empty [])).2) := Prod.ext (by rfl) rfl
  have hf : ofThreeIntegers.FloatsReadBack :=
    FloatsReadBack.recordAll (fun e he => by cases he) <| by
      simpa only [List.forall_mem_cons] using
        ⟨Recording.floatsReadBack_ofInteger "f" 1, Recording.floatsReadBack_ofInteger "g" 2,
          Recording.floatsReadBack_ofInteger "f" 3, by simp⟩
  obtain ⟨hread, -, hshallow⟩ := read_save_iff (Disk.empty []) hcalls rfl hf.legible hsave
  exact hread (hshallow (by decide))

end Settings

end Store

/-! ## A value that is too deep -/

/-- Tuples inside each other, so many around the innermost. -/
def Value.nested : Nat → Value
  | 0 => .tuple []
  | n + 1 => .tuple [nested n]

/-- The marker inside so many arrays. -/
def Json.nested : Nat → Json
  | 0 => .string depthMarker
  | n + 1 => .array [nested n]

theorem Json.nesting_nested (n : Nat) : (Json.nested n).nesting = n := by
  induction n with
  | zero => rfl
  | succ n ih => rw [nested, nesting, nestingItems, ih, nestingItems, Nat.max_zero]

theorem Json.legible_nested (n : Nat) : (Json.nested n).Legible := by
  induction n with
  | zero => trivial
  | succ n ih => exact legible_array.mpr (List.forall_mem_singleton.mpr ih)

/-- Tuples are captured down to the limit. -/
theorem captureLevels_nested (answer : Answering) (n : Nat) (w : World) :
    captureLevels answer n (Value.nested n) w = (.ok (Json.nested n), w) := by
  induction n with
  | zero => rfl
  | succ n ih =>
    simp only [Value.nested, captureLevels_succ, captureNode, List.mapM_cons, List.mapM_nil,
      Run.bind_apply, ih, Run.pure_apply, Json.nested]

/-- A call of a function of one parameter with a value that nests beyond a depth limit. -/
def Recording.ofNested (name : String) (maxDepth : Nat) : Recording where
  name := name
  samples := [(0, Json.nested (maxDepth + 1))]
  paramNames := ["x"]
  index_lt := by simp [wordLimit]

theorem Recording.captured_ofNested (name : String) (maxDepth : Nat) :
    (ofNested name maxDepth).Captured maxDepth := by
  refine ⟨fun _ => pure none,
    { positional := [Value.nested (maxDepth + 1)], keywords := [] }, .empty, .empty, ?_⟩
  have hcapture := captureLevels_nested (fun _ => pure none) (maxDepth + 1) .empty
  have hnamed : namedArguments
      { positional := [Value.nested (maxDepth + 1)], keywords := [] } ["x"] = [] := rfl
  simp only [ofNested, captureArguments, List.zipIdx_cons, List.zipIdx_nil, hnamed, List.mapM_cons,
    List.mapM_nil, captureSample, capture, Run.bind_apply, hcapture, Run.pure_apply,
    List.append_nil]

namespace Store

variable {s t : Store} {d₀ d d' : Disk} {n : Nat} {c : Config}

theorem entries_record_of_empty (hs : s.entries = []) (r : Recording) :
    (s.recordAll [r]).entries =
      [(r.name, (Record.fresh r.paramNames).count s.capacity r.samples r.paramNames)] := by
  simp [recordAll, record, apply, change, get?, hs, Entries.get?, Entries.find?, Entries.set,
    Entries.put]

/-- The only sample of a record that counted one call with one. -/
theorem slots_count_fresh {capacity : Nat} (names : List String) (j : Json) :
    ((Record.fresh names).count capacity [(0, j)] names).slots = [(0, [j])] := by
  simp [Record.count, Record.rename, Record.push, Record.fresh, Record.samples?, Entries.find?,
    Record.pushBounded, newest, Entries.putSorted]

/-- What holds of the only sample of a store holds of all of them, and the other way round. -/
theorem every_sample_iff {P : Json → Prop} {name : String} {capacity : Nat} {names : List String}
    {j : Json} (h : s.entries = [(name, (Record.fresh names).count capacity [(0, j)] names)]) :
    (s.Every fun r => r.Slots fun _ items => ∀ k ∈ items, P k) ↔ P j := by
  simp [Every, h, Record.Slots, slots_count_fresh]

/-- Beyond a depth limit of 122 one call is enough: wherever a store of the settings can be written
at all, it can be written after a call of a deep value, and then the file is refused. -/
theorem unreadable_nested (hdepth : 122 < c.maxDepth) (hempty : (c.store.load d₀).1.entries = [])
    (hpath : s.path = c.cacheFile) (hsave : s.save d = (.ok (.written n), d')) (name : String) :
    ∃ d'', ((c.store.load d₀).1.recordAll [.ofNested name c.maxDepth]).save d =
        (.ok (.written 1), d'') ∧
      FileEntries.read d'' c.cacheFile = .error (.malformed c.cacheFile) := by
  generalize ht : (c.store.load d₀).1.recordAll [.ofNested name c.maxDepth] = t
  have hentries : t.entries = [(name, (Record.fresh ["x"]).count (c.store.load d₀).1.capacity
      [(0, Json.nested (c.maxDepth + 1))] ["x"])] := ht ▸ entries_record_of_empty hempty _
  have hcalls : ∀ r ∈ [Recording.ofNested name c.maxDepth], r.Captured c.maxDepth :=
    List.forall_mem_singleton.mpr (Recording.captured_ofNested name c.maxDepth)
  have hl : t.Legible := (every_sample_iff hentries).mpr (Json.legible_nested _)
  have hdeep : ¬t.toJson.nesting ≤ Json.nestingLimit := by
    intro hle
    have hshallow : t.Every (Record.Shallow sampleRoom) := nesting_toJson_le.mp hle
    have hsample := (every_sample_iff hentries).mp hshallow
    rw [Json.nesting_nested] at hsample
    unfold sampleRoom at hsample
    omega
  have htpath : t.path = s.path := by
    rw [hpath, ← ht, path_recordAll, path_load]
    rfl
  obtain ⟨d'', hwritten, -⟩ := save_of_save htpath (by simp [hentries]) hsave
  have hsize : t.size = 1 := by rw [size, hentries, List.length_singleton]
  refine ⟨d'', hsize ▸ hwritten, ?_⟩
  rw [fileEntries_of_run d₀ hcalls ht.symm hl hwritten, if_neg hdeep]

/-- Settings with a depth limit of 123 are accepted, and a call is lost with the whole file. -/
theorem unreadable_nested_one_call :
    let c : Config := { Config.ofPaths { text := "samples.json" } { text := "/" } with
      maxDepth := 123 }
    c.validate = .ok () ∧ (Recording.ofNested "f" 123).Captured c.maxDepth ∧
    ∃ d', ((c.store.load (Disk.empty [])).1.recordAll [.ofNested "f" 123]).save (Disk.empty []) =
        (.ok (.written 1), d') ∧
      FileEntries.read d' c.cacheFile = .error (.malformed c.cacheFile) := by
  intro c
  have hsave : ofThreeIntegers.save (Disk.empty []) =
      (.ok (.written 2), (ofThreeIntegers.save (Disk.empty [])).2) := Prod.ext (by rfl) rfl
  have hempty : (c.store.load (Disk.empty [])).1.entries = [] :=
    List.isEmpty_iff.mp (by decide +kernel)
  have hdepth : 122 < c.maxDepth := by decide
  exact ⟨rfl, Recording.captured_ofNested "f" 123, unreadable_nested hdepth hempty rfl hsave "f"⟩

end Store

end CallSampler
