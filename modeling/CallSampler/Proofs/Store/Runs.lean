import CallSampler.Proofs.Store.Reload

/-!
# Runs one after the other

A run loads the store from its file, records its calls and saves the store again. Cutting a history
into several runs changes nothing: the store that a run saved is the one that the next run loads,
records, order and all (`load_run`), so the last run ends with the store that one run over the whole
history ends with, and writes the same file (`runAll_eq_run`). A run that recorded nothing and
loaded nothing leaves the file alone, and the next run then finds what this one found.
-/

namespace CallSampler

namespace Store

/-- Load the store at a path, record calls, and save it: the store and the disk then. -/
def run (path : Path) (maxSamples maxDepth : Nat) (calls : List Recording) (d : Disk) :
    Except StoreError (Store × Disk) :=
  let s := ((fresh path maxSamples maxDepth).load d).1.recordAll calls
  match s.save d with
  | (.ok _, d) => .ok (s, d)
  | (.error e, _) => .error e

/-- Runs one after the other, at least one: the store of the last and the disk then. -/
def runAll (path : Path) (maxSamples maxDepth : Nat) :
    List Recording → List (List Recording) → Disk → Except StoreError (Store × Disk)
  | calls, [], d => run path maxSamples maxDepth calls d
  | calls, next :: rest, d => do
    let (_, d) ← run path maxSamples maxDepth calls d
    runAll path maxSamples maxDepth next rest d

variable {path : Path} {maxSamples maxDepth : Nat} {calls more : List Recording} {d d' : Disk}
  {s t : Store}

/-- The store that is loaded when a run starts. -/
abbrev loaded (path : Path) (maxSamples maxDepth : Nat) (d : Disk) : Store :=
  ((fresh path maxSamples maxDepth).load d).1

/-- A run ends with what it loaded and recorded, and either wrote that or left the disk alone
because there was nothing to write. -/
theorem run_eq_ok (h : run path maxSamples maxDepth calls d = .ok (s, d')) :
    s = (loaded path maxSamples maxDepth d).recordAll calls ∧
      ((s.entries = [] ∧ d' = d) ∨ ∃ n, s.save d = (.ok (.written n), d')) := by
  unfold run at h
  dsimp only at h
  split at h
  next outcome d₁ hsave =>
    cases h
    refine ⟨rfl, ?_⟩
    cases outcome with
    | skippedEmpty => exact Or.inl (save_eq_skipped hsave)
    | written n => exact Or.inr ⟨n, hsave⟩
  next => cases h

theorem path_loaded : (loaded path maxSamples maxDepth d).path = path := path_load

theorem maxDepth_loaded : (loaded path maxSamples maxDepth d).maxDepth = maxDepth := maxDepth_load

theorem capacity_loaded : (loaded path maxSamples maxDepth d).capacity = max 1 maxSamples :=
  capacity_load

/-! ## Nothing is forgotten -/

/-- Calls never remove a record. -/
theorem entries_eq_nil_of_recordAll (h : (s.recordAll calls).entries = []) :
    s.entries = [] ∧ calls = [] := by
  have hrecord : ∀ (s : Store) (r : Recording), (s.record r).entries ≠ [] := by
    intro s r hnil
    have hget := get?_record (s := s) r r.name
    rw [if_pos rfl, get?, hnil] at hget
    cases hget
  induction calls generalizing s with
  | nil => exact ⟨h, rfl⟩
  | cons r rest ih => exact absurd (ih h).1 (hrecord s r)

/-! ## Two runs -/

/-- What is assumed of a history that starts from a disk: every call was captured, and every float
that is loaded or recorded reads back from its text. -/
structure Faithful (path : Path) (maxSamples maxDepth : Nat) (calls : List Recording) (d : Disk) :
    Prop where
  captured : ∀ r ∈ calls, r.Captured maxDepth
  loadedFloats : (loaded path maxSamples maxDepth d).FloatsReadBack
  floats : ∀ r ∈ calls, ∀ x ∈ r.samples, x.2.FloatsReadBack

/-- A run over the first calls of a faithful history is faithful. -/
theorem Faithful.of_append (h : Faithful path maxSamples maxDepth (calls ++ more) d) :
    Faithful path maxSamples maxDepth calls d where
  captured := fun r hr => h.captured r (List.mem_append_left _ hr)
  loadedFloats := h.loadedFloats
  floats := fun r hr => h.floats r (List.mem_append_left _ hr)

/-- What one run leaves is what the next one loads. -/
theorem load_run (hdepth : maxDepth ≤ 122) (hf : Faithful path maxSamples maxDepth calls d)
    (h : run path maxSamples maxDepth calls d = .ok (s, d')) :
    loaded path maxSamples maxDepth d' = s := by
  obtain ⟨rfl, ⟨hnil, rfl⟩ | ⟨n, hsave⟩⟩ := run_eq_ok h
  · obtain ⟨-, rfl⟩ := entries_eq_nil_of_recordAll hnil
    rfl
  · have hd : ((loaded path maxSamples maxDepth d).recordAll calls).Durable := by
      refine (durable_load d _).recordAll ?_ ?_
      · rw [maxDepth_load]
        exact hdepth
      · rw [maxDepth_load]
        exact hf.captured
    have hpath : ((loaded path maxSamples maxDepth d).recordAll calls).path = path := by
      rw [path_recordAll, path_loaded]
    have hcapacity : ((loaded path maxSamples maxDepth d).recordAll calls).capacity =
        max 1 maxSamples := by
      rw [capacity_recordAll, capacity_loaded]
    have hentries := (load_of_save hd (hf.loadedFloats.recordAll hf.floats) hsave
      maxSamples maxDepth).1
    rw [hpath, map_trim hd (Nat.le_of_eq hcapacity)] at hentries
    refine Store.ext ?_ ?_ ?_ hentries
    · rw [hpath, path_loaded]
    · rw [hcapacity, capacity_loaded]
    · rw [maxDepth_recordAll, maxDepth_loaded, maxDepth_loaded]

/-- The rest of a faithful history is faithful after a run over its first calls. -/
theorem Faithful.after_run (hdepth : maxDepth ≤ 122)
    (hf : Faithful path maxSamples maxDepth (calls ++ more) d)
    (h : run path maxSamples maxDepth calls d = .ok (s, d')) :
    Faithful path maxSamples maxDepth more d' := by
  have hload := load_run hdepth hf.of_append h
  obtain ⟨hs, -⟩ := run_eq_ok h
  refine ⟨fun r hr => hf.captured r (List.mem_append_right _ hr), ?_,
    fun r hr => hf.floats r (List.mem_append_right _ hr)⟩
  rw [hload, hs]
  exact hf.loadedFloats.recordAll hf.of_append.floats

/-- Two runs end like one over both parts: with the same store, and the same content of the file. -/
theorem run_append {d₁ d₂ : Disk} (hdepth : maxDepth ≤ 122)
    (hf : Faithful path maxSamples maxDepth (calls ++ more) d)
    (h₁ : run path maxSamples maxDepth calls d = .ok (s, d₁))
    (h₂ : run path maxSamples maxDepth more d₁ = .ok (t, d₂)) :
    ∃ d', run path maxSamples maxDepth (calls ++ more) d = .ok (t, d') ∧
      d'.read path = d₂.read path := by
  have hload := load_run hdepth hf.of_append h₁
  obtain ⟨hs, hfirst⟩ := run_eq_ok h₁
  obtain ⟨ht, hsecond⟩ := run_eq_ok h₂
  rw [hload] at ht
  have hboth : (loaded path maxSamples maxDepth d).recordAll (calls ++ more) = t := by
    rw [recordAll_append, ← hs, ht]
  have hpath : t.path = path := by rw [← hboth, path_recordAll, path_loaded]
  have hspath : s.path = path := by rw [hs, path_recordAll, path_loaded]
  rcases hsecond with ⟨hnil, rfl⟩ | ⟨n, hsave⟩
  · -- nothing at all: the first part left the disk alone as well
    obtain ⟨hsnil, -⟩ := entries_eq_nil_of_recordAll (ht ▸ hnil)
    have hd : d₂ = d := by
      rcases hfirst with ⟨-, hd⟩ | ⟨n, hsave⟩
      · exact hd
      · simp [save, isEmpty, hsnil] at hsave
    subst hd
    refine ⟨d₂, ?_, rfl⟩
    rw [run, hboth, save, isEmpty, hnil]
    rfl
  · have hne : t.entries ≠ [] := fun hnil => by simp [save, isEmpty, hnil] at hsave
    -- whichever part wrote first wrote to the disk that the single run starts from
    have hfirstSave : ∃ d', t.save d = (.ok (.written t.size), d') ∧
        d'.read t.path = .ok (.text t.toJson.pretty) := by
      rcases hfirst with ⟨-, rfl⟩ | ⟨m, hsave₁⟩
      · exact save_of_save rfl hne hsave
      · exact save_of_save (hpath.trans hspath.symm) hne hsave₁
    obtain ⟨d', hsave', hread⟩ := hfirstSave
    refine ⟨d', ?_, ?_⟩
    · rw [run, hboth, hsave']
    · rw [← hpath, hread, (read_save hsave).2]

/-! ## Any number of runs -/

/-- Splitting a history into runs changes nothing. For every disk, and so for every content of the
file, the store that the last run ends with is that of a single run over the whole history, which
does not fail either and leaves the same content in the file. -/
theorem runAll_eq_run (hdepth : maxDepth ≤ 122) {rest : List (List Recording)}
    (hf : Faithful path maxSamples maxDepth (calls ++ rest.flatten) d)
    (h : runAll path maxSamples maxDepth calls rest d = .ok (s, d')) :
    ∃ d'', run path maxSamples maxDepth (calls ++ rest.flatten) d = .ok (s, d'') ∧
      d''.read path = d'.read path := by
  induction rest generalizing calls d with
  | nil =>
    rw [List.flatten_nil, List.append_nil]
    exact ⟨d', h, rfl⟩
  | cons next rest ih =>
    obtain ⟨⟨s₁, d₁⟩, h₁, h⟩ := Disk.except_bind_eq_ok h
    rw [List.flatten_cons] at hf ⊢
    obtain ⟨d₂, h₂, hread⟩ := ih (hf.after_run hdepth h₁) h
    obtain ⟨d'', hrun, hread'⟩ := run_append hdepth hf h₁ h₂
    exact ⟨d'', hrun, hread'.trans hread⟩

theorem faithful_ofInteger : Faithful { text := "samples.json" } 2 1
    ([.ofInteger "f" 1] ++ [[], [.ofInteger "g" 2, .ofInteger "f" 3]].flatten) (Disk.empty []) where
  captured := by simp [Recording.captured_ofInteger]
  loadedFloats := fun e he => by cases he
  floats := by
    show ∀ r ∈ [Recording.ofInteger "f" 1, .ofInteger "g" 2, .ofInteger "f" 3], _
    simpa only [List.forall_mem_cons] using
      ⟨Recording.floatsReadBack_ofInteger "f" 1, Recording.floatsReadBack_ofInteger "g" 2,
        Recording.floatsReadBack_ofInteger "f" 3, by simp⟩

theorem runAll_eq_run_three_integers :
    ∃ s d' d'', runAll { text := "samples.json" } 2 1 [.ofInteger "f" 1]
        [[], [.ofInteger "g" 2, .ofInteger "f" 3]] (Disk.empty []) = .ok (s, d') ∧
      run { text := "samples.json" } 2 1
        ([.ofInteger "f" 1] ++ [[], [.ofInteger "g" 2, .ofInteger "f" 3]].flatten)
        (Disk.empty []) = .ok (s, d'') ∧
      d''.read { text := "samples.json" } = d'.read { text := "samples.json" } := by
  have hok : (runAll { text := "samples.json" } 2 1 [.ofInteger "f" 1]
      [[], [.ofInteger "g" 2, .ofInteger "f" 3]] (Disk.empty [])).toBool := by decide +kernel
  cases hparts : runAll { text := "samples.json" } 2 1 [.ofInteger "f" 1]
      [[], [.ofInteger "g" 2, .ofInteger "f" 3]] (Disk.empty []) with
  | error e =>
    rw [hparts] at hok
    cases hok
  | ok last =>
    obtain ⟨d'', hrun, hread⟩ := runAll_eq_run (by decide) faithful_ofInteger hparts
    exact ⟨last.1, last.2, d'', rfl, hrun, hread⟩

end Store

end CallSampler
