import CallSampler.Proofs.Disk.Trees
import CallSampler.Proofs.Json.Refusal
import CallSampler.Proofs.Store.Depth
import CallSampler.Proofs.Store.History
import Mathlib.Data.List.Forall2
import Mathlib.Logic.Function.Iterate

/-!
# Which calls samples came from

A store and its file remember calls: how the last one of a function named its parameters and, for
each slot, which samples were pushed last (`Record.Remembers`). Recording adds a call
(`Remember.record`), and saving and loading hand on what is remembered (`Kept.Sound.save`,
`Kept.Sound.reload`), as a file is read as a whole or not at all (`accepted_of_save`). So at any
time the samples of a slot are, one by one, the newest that calls of the function pushed to it
(`Sourced`). The names are those of the last call alone: a sample can be kept under a name that its
call did not declare (`not_rightlyLabelled_renamed`), but only if it was pushed before the name was
last changed, and only until the slot is full of samples pushed since (`labelled_run`).
-/

namespace CallSampler

/-! ## Newest items -/

section Newest

variable {α β : Type} {R : α → β → Prop} {m n : Nat}

theorem newest_newest (h : m ≤ n) (items : List α) :
    newest m (newest n items) = newest m items := by
  rw [newest, length_newest, newest, newest, List.drop_drop]
  congr 1
  omega

theorem newest_append (n : Nat) (items more : List α) :
    newest n (items ++ more) = newest (n - more.length) items ++ newest n more := by
  have hfront : items.drop (items.length + more.length - n) = newest (n - more.length) items := by
    rw [newest]
    by_cases h : more.length ≤ n
    · congr 1
      omega
    · rw [List.drop_eq_nil_of_le (by omega), List.drop_eq_nil_of_le (by omega)]
  have hback : items.length + more.length - n - items.length = more.length - n := by omega
  rw [newest, List.length_append, List.drop_append, hfront, hback, newest, newest]

theorem forall₂_newest {xs : List α} {ys : List β} (h : List.Forall₂ R xs ys) (n : Nat) :
    List.Forall₂ R (newest n xs) (newest n ys) := by
  rw [newest, newest, h.length_eq]
  exact List.forall₂_drop _ h

end Newest

/-! ## Documents that are read again and again -/

namespace Json

/-- A document is what another one is read as after it was written some number of times. -/
def BecomesOf (j' j : Json) : Prop := ∃ n, reread^[n] j = j'

end Json

/-! ## Samples and the calls they came from -/

/-- Every sample that some calls pushed to a slot, each with its call, oldest first. -/
def pushes (index : Nat) (calls : List Recording) : List (Recording × Json) :=
  calls.flatMap fun c => (Record.pushedTo index c.samples).map fun j => (c, j)

/-- What the samples of a slot were when they were pushed, if the slot holds the newest. -/
def sources (index : Nat) (calls : List Recording) (samples : List Json) :
    List (Recording × Json) :=
  newest samples.length (pushes index calls)

/-- A slot holds samples that calls pushed: the newest, in order, read from files any number of
times. -/
def Sourced (index : Nat) (calls : List Recording) (samples : List Json) : Prop :=
  List.Forall₂ (fun push j => j.BecomesOf push.2) (sources index calls samples) samples

section Sources

variable {index : Nat} {calls before since : List Recording} {samples : List Json}

theorem pushes_append (index : Nat) (calls more : List Recording) :
    pushes index (calls ++ more) = pushes index calls ++ pushes index more := List.flatMap_append

theorem pushes_singleton (index : Nat) (c : Recording) :
    pushes index [c] = (Record.pushedTo index c.samples).map fun j => (c, j) := by
  simp [pushes]

theorem mem_calls_of_mem_pushes {push : Recording × Json} (h : push ∈ pushes index calls) :
    push.1 ∈ calls := by
  obtain ⟨c, hc, hpush⟩ := List.mem_flatMap.mp h
  obtain ⟨j, -, rfl⟩ := List.mem_map.mp hpush
  exact hc

theorem Sourced.nil (index : Nat) (calls : List Recording) : Sourced index calls [] := by
  rw [Sourced, sources, newest, List.length_nil, Nat.sub_zero, List.drop_length]
  exact .nil

theorem Sourced.call (h : Sourced index calls samples) (c : Recording) :
    Sourced index (calls ++ [c]) (samples ++ Record.pushedTo index c.samples) := by
  have hpushed : List.Forall₂ (fun push j => j.BecomesOf push.2) (pushes index [c])
      (Record.pushedTo index c.samples) := by
    rw [pushes_singleton, List.forall₂_map_left_iff]
    exact List.forall₂_same.mpr fun j _ => ⟨0, rfl⟩
  have hnew : newest (samples.length + (pushes index [c]).length) (pushes index [c]) =
      pushes index [c] := newest_of_length_le (Nat.le_add_left _ _)
  have hsources : sources index (calls ++ [c]) (samples ++ Record.pushedTo index c.samples) =
      sources index calls samples ++ pushes index [c] := by
    rw [sources, pushes_append, List.length_append, ← hpushed.length_eq, newest_append,
      Nat.add_sub_cancel, hnew, sources]
  rw [Sourced, hsources]
  exact List.rel_append h hpushed

theorem Sourced.newest (h : Sourced index calls samples) (n : Nat) :
    Sourced index calls (newest n samples) := by
  by_cases hn : n ≤ samples.length
  · have hlength : (CallSampler.newest n samples).length = n := by
      rw [length_newest]
      omega
    have hkept := forall₂_newest h n
    rw [sources, newest_newest hn] at hkept
    rwa [Sourced, sources, hlength]
  · rwa [newest_of_length_le (by omega)]

theorem Sourced.reread (h : Sourced index calls samples) :
    Sourced index calls (samples.map Json.reread) := by
  rw [Sourced, sources, List.length_map, List.forall₂_map_right_iff]
  refine List.Forall₂.imp (fun push j => ?_) h
  rintro ⟨n, hn⟩
  exact ⟨n + 1, by rw [Function.iterate_succ_apply', hn]⟩

end Sources

/-! ## Records -/

namespace Record

variable {r : Record} {calls : List Recording} {capacity room : Nat}

/-- A record remembers the calls of its function: which names the last one supplied, and of every
slot the newest samples. -/
structure Remembers (calls : List Recording) (r : Record) : Prop where
  paramNames : r.paramNames = (calls.getLast?.map Recording.paramNames).getD []
  slot : ∀ index, Sourced index calls ((r.samples? index).getD [])

theorem remembers_fresh : (fresh []).Remembers [] where
  paramNames := rfl
  slot := fun index => Sourced.nil index []

theorem Remembers.count (h : r.Remembers calls) (hc : 0 < capacity) (hb : r.Bounded capacity)
    (c : Recording) (hnames : c.paramNames ≠ []) :
    (r.count capacity c.samples c.paramNames).Remembers (calls ++ [c]) where
  paramNames := by
    rw [paramNames_count, if_neg (by simpa using hnames)]
    simp
  slot := fun index => by
    have hkept : r.samples? index = slotAfter capacity (r.samples? index) [] := by
      rw [slotAfter_nil, ← samples?_trim, trim_of_bounded hb]
    rw [samples?_count hc c.samples c.paramNames hkept, getD_slotAfter, List.nil_append]
    exact ((h.slot index).call c).newest capacity

/-- What is done to every slot alike, and to nothing else, is done to what is remembered. -/
theorem Remembers.map_slots {r' : Record} {f : List Json → List Json} (h : r.Remembers calls)
    (hnames : r'.paramNames = r.paramNames)
    (hslots : ∀ index, r'.samples? index = (r.samples? index).map f)
    (hf : ∀ {index samples}, Sourced index calls samples → Sourced index calls (f samples)) :
    r'.Remembers calls where
  paramNames := hnames.trans h.paramNames
  slot := fun index => by
    have hslot := h.slot index
    rw [hslots]
    cases hr : r.samples? index with
    | none => exact Sourced.nil index calls
    | some samples =>
      rw [hr] at hslot
      exact hf hslot

theorem Remembers.trim (h : r.Remembers calls) (capacity : Nat) :
    (r.trim capacity).Remembers calls :=
  h.map_slots rfl samples?_trim fun hslot => hslot.newest capacity

theorem samples?_reread (r : Record) (index : Nat) :
    r.reread.samples? index = (r.samples? index).map (List.map Json.reread) :=
  Entries.find?_map_value _ _ _

theorem Remembers.reread (h : r.Remembers calls) : r.reread.Remembers calls :=
  h.map_slots rfl (samples?_reread r) Sourced.reread

/-- What holds everywhere in the document of a record holds of its samples. -/
theorem slots_of_everywhere_toJson {P : Json → Prop} (h : r.toJson.Everywhere P) :
    r.Slots fun _ items => ∀ j ∈ items, j.Everywhere P := by
  simp only [toJson, Json.everywhere_object, List.forall_mem_cons, List.forall_mem_map] at h
  obtain ⟨-, -, -, ⟨-, hslots⟩, -⟩ := h
  exact fun slot hslot => (Json.everywhere_array.mp (hslots slot hslot)).2

end Record

/-! ## Entries -/

namespace Store

theorem callsOf_append_singleton (name : String) (calls : List Recording) (c : Recording) :
    callsOf name (calls ++ [c]) =
      if c.name = name then callsOf name calls ++ [c] else callsOf name calls := by
  by_cases hname : c.name = name <;> simp [callsOf, hname]

variable {s : Store} {entries : List (String × Record)} {calls : List Recording}
  {c : Recording} {room : Nat}

/-- A call names its parameters, and its samples fit some room in a file. -/
def Admissible (room : Nat) (c : Recording) : Prop :=
  c.paramNames ≠ [] ∧ ∀ x ∈ c.samples, x.2.Within room

/-- The records of some entries remember calls: each the calls of its function, of which there was
one at least, and none is missing. -/
structure Remember (room : Nat) (calls : List Recording) (entries : List (String × Record)) :
    Prop where
  within : ∀ e ∈ entries, e.2.Within room
  kept : ∀ name, (Entries.get? name entries).isSome ↔ callsOf name calls ≠ []
  records : ∀ name, ((Entries.get? name entries).getD (.fresh [])).Remembers (callsOf name calls)

theorem remember_nil (room : Nat) : Remember room [] [] where
  within := by simp
  kept := fun name => by simp [Entries.get?, Entries.find?, callsOf]
  records := fun name => Record.remembers_fresh

theorem get?_map (f : Record → Record) (name : String) :
    Entries.get? name (entries.map fun e => (e.1, f e.2)) = (Entries.get? name entries).map f :=
  Entries.find?_map_value f name entries

/-- What changes records one by one without a change to what they remember. -/
theorem Remember.map {f : Record → Record} (h : Remember room calls entries)
    (hwithin : ∀ e ∈ entries, (f e.2).Within room)
    (hf : ∀ {r calls}, r.Remembers calls → (f r).Remembers calls) :
    Remember room calls (entries.map fun e => (e.1, f e.2)) where
  within := List.forall_mem_map.mpr hwithin
  kept := fun name => by
    rw [get?_map, Option.isSome_map]
    exact h.kept name
  records := fun name => by
    have hrecord := h.records name
    rw [get?_map]
    cases hr : Entries.get? name entries with
    | none =>
      rw [hr] at hrecord
      exact hrecord
    | some r =>
      rw [hr] at hrecord
      exact hf hrecord

theorem Remember.trim (h : Remember room calls entries) (capacity : Nat) :
    Remember room calls (entries.map fun e => (e.1, e.2.trim capacity)) :=
  h.map (fun e he => (h.within e he).trim fun _ _ hslot =>
      ⟨hslot.1, fun j hj => hslot.2 j (mem_of_mem_newest hj)⟩)
    fun hr => hr.trim capacity

theorem Remember.reread (h : Remember room calls entries) (hl : ∀ e ∈ entries, e.2.Legible) :
    Remember room calls (entries.map fun e => (e.1, e.2.reread)) :=
  h.map (fun e he => (h.within e he).reread (hl e he)) Record.Remembers.reread

theorem Every.getD_fresh {P : Record → Prop} (h : s.Every P) (hfresh : P (.fresh []))
    (name : String) : P ((s.get? name).getD (.fresh [])) := by
  cases hr : s.get? name with
  | none => exact hfresh
  | some r => exact h.get? hr

/-- A call is remembered by the record of its function. -/
theorem Remember.record (h : Remember room calls s.entries)
    (hb : s.Every (Record.Bounded s.capacity)) (hc : Admissible room c) :
    Remember room (calls ++ [c]) (s.record c).entries where
  within := Every.record h.within (Record.slots_fresh _) fun _ hold =>
    within_count hold hc.2
  kept := fun name => by
    show ((s.record c).get? name).isSome ↔ _
    rw [get?_record, callsOf_append_singleton]
    split
    next => simp
    next => exact h.kept name
  records := fun name => by
    show (((s.record c).get? name).getD (.fresh [])).Remembers _
    rw [get?_record, callsOf_append_singleton]
    split
    next hname =>
      subst hname
      rw [History.count_fresh, Option.getD_some]
      exact (h.records c.name).count s.capacity_pos
        (hb.getD_fresh (Record.slots_fresh []) c.name) c hc.1
    next => exact h.records name

/-- Whatever is read of a written file are all functions of the store, with their samples as they
are read. -/
theorem accepted_of_save {d d' : Disk} {n : Nat} {file : FileEntries}
    (h : s.Every (Record.Within room)) (hsave : s.save d = (.ok (.written n), d'))
    (hread : FileEntries.read d' s.path = .ok (some file)) :
    s.Legible ∧ file.accepted = s.entries.map fun e => (e.1, e.2.reread) := by
  have hl : s.Legible := by
    rw [fileEntries_eq_of_save hsave] at hread
    cases htext : Json.ofText? Json.nestingLimit s.toJson.pretty with
    | none =>
      rw [htext] at hread
      cases hread
    | some j =>
      obtain ⟨hlegible, -⟩ := (Json.ofText?_pretty_eq_some_iff (within_toJson h).1).mp htext
      have hrecords := (Json.everywhere_object.mp hlegible).2
      exact fun e he => Record.slots_of_everywhere_toJson
        (hrecords (e.1, e.2.toJson) (List.mem_map_of_mem he))
  rw [fileEntries_of_save h hl hsave] at hread
  split at hread
  next =>
    cases hread
    exact ⟨hl, rfl⟩
  next => cases hread

/-! ## Stores with their files -/

/-- What is done with a store and its file. -/
inductive Use where
  | record (c : Recording)
  | save
  /-- Make the store anew from what the file holds. -/
  | reload (maxSamples maxDepth : Nat)

/-- A store and the disk with its file, and which calls the two have traces of. -/
structure Kept where
  store : Store
  disk : Disk
  /-- The calls that the store knows of, the loaded ones included. -/
  calls : List Recording
  /-- The calls that the file knows of. -/
  filed : List Recording

namespace Kept

/-- A store made from what a file holds, of which no call is known. -/
def start (d : Disk) (path : Path) (maxSamples maxDepth : Nat) : Kept where
  store := ((fresh path maxSamples maxDepth).load d).1
  disk := d
  calls := []
  filed := []

/-- After a save the file knows of the same calls as the store, if it was written, and after a load
the store of the same as the file, if there was one to be read. -/
def perform (k : Kept) : Use → Kept
  | .record c => { k with store := k.store.record c, calls := k.calls ++ [c] }
  | .save =>
    { k with
      disk := (k.store.save k.disk).2
      filed := match (k.store.save k.disk).1 with
        | .ok (.written _) => k.calls
        | _ => k.filed }
  | .reload maxSamples maxDepth =>
    { k with
      store := ((fresh k.store.path maxSamples maxDepth).load k.disk).1
      calls := match FileEntries.read k.disk k.store.path with
        | .ok (some _) => k.filed
        | _ => [] }

def run (uses : List Use) (k : Kept) : Kept := uses.foldl perform k

/-- The calls that are recorded, in order. -/
def recorded : List Use → List Recording
  | [] => []
  | .record c :: rest => c :: recorded rest
  | _ :: rest => recorded rest

/-- Store and file remember their calls, all of which were recorded. -/
structure Sound (room : Nat) (done : List Recording) (k : Kept) : Prop where
  tree : k.disk.Tree
  bounded : k.store.Every (Record.Bounded k.store.capacity)
  store : Remember room k.calls k.store.entries
  file : ∀ file, FileEntries.read k.disk k.store.path = .ok (some file) →
    Remember room k.filed file.accepted
  calls : k.calls.Sublist done
  filed : k.filed.Sublist done

variable {room : Nat} {done : List Recording} {k : Kept}

theorem bounded_load (d : Disk) (s : Store) :
    (s.load d).1.Every (Record.Bounded (s.load d).1.capacity) := (durable_load d s).bounded

theorem sound_start {d : Disk} {path : Path} {maxSamples maxDepth : Nat} (htree : d.Tree)
    (hempty : ((fresh path maxSamples maxDepth).load d).1.isEmpty) :
    (start d path maxSamples maxDepth).Sound room [] where
  tree := htree
  bounded := bounded_load d _
  store := by
    show Remember room [] ((fresh path maxSamples maxDepth).load d).1.entries
    rw [List.isEmpty_iff.mp hempty]
    exact remember_nil room
  file := fun file hfile => by
    have hread : FileEntries.read d (fresh path maxSamples maxDepth).path = .ok (some file) := by
      rw [← hfile]
      exact congrArg _ path_load.symm
    have hentries := List.isEmpty_iff.mp hempty
    rw [load_of_read hread, entries_take (FileEntries.nodup_of_read hfile)] at hentries
    show Remember room [] file.accepted
    rw [List.map_eq_nil_iff.mp hentries]
    exact remember_nil room
  calls := .slnil
  filed := .slnil

theorem Sound.record (h : k.Sound room done) {c : Recording} (hc : Admissible room c) :
    (k.perform (.record c)).Sound room (done ++ [c]) where
  tree := h.tree
  bounded := Every.record h.bounded (Record.slots_fresh _) fun _ hold =>
    Record.Bounded.count k.store.capacity_pos hold c.samples c.paramNames
  store := h.store.record h.bounded hc
  file := h.file
  calls := h.calls.append_right [c]
  filed := h.filed.trans (List.sublist_append_left done [c])

/-- What is read after a save is what was written or, where nothing was, the file before. A failed
save leaves nothing to be read. -/
theorem Sound.save (h : k.Sound room done) : (k.perform .save).Sound room done where
  tree := tree_save h.tree k.store
  bounded := h.bounded
  store := h.store
  file := fun file hfile => by
    dsimp only [perform] at hfile ⊢
    cases hsave : k.store.save k.disk with
    | mk outcome d' =>
    rw [hsave] at hfile
    cases outcome with
    | error e => exact absurd hfile (read_of_save_eq_error h.tree hsave file)
    | ok outcome =>
    cases outcome with
    | skippedEmpty =>
      obtain ⟨-, rfl⟩ := save_eq_skipped hsave
      exact h.file file hfile
    | written n =>
      obtain ⟨hlegible, haccepted⟩ := accepted_of_save h.store.within hsave hfile
      rw [haccepted]
      exact h.store.reread hlegible
  calls := h.calls
  filed := by
    unfold perform
    dsimp only
    split
    next => exact h.calls
    next => exact h.filed

theorem Sound.reload (h : k.Sound room done) (maxSamples maxDepth : Nat) :
    (k.perform (.reload maxSamples maxDepth)).Sound room done where
  tree := h.tree
  bounded := bounded_load k.disk _
  store := by
    dsimp only [perform]
    split
    next file hfile =>
      have hread : FileEntries.read k.disk (fresh k.store.path maxSamples maxDepth).path =
          .ok (some file) := hfile
      rw [load_of_read hread, entries_take (FileEntries.nodup_of_read hfile)]
      exact (h.file file hfile).trim _
    next hnone =>
      have hentries : ((fresh k.store.path maxSamples maxDepth).load k.disk).1.entries = [] := by
        unfold load
        split
        next => rfl
        next file hfile => exact absurd hfile (hnone file)
        next => rfl
      rw [hentries]
      exact remember_nil room
  file := fun file hfile => by
    dsimp only [perform] at hfile ⊢
    rw [path_load] at hfile
    exact h.file file hfile
  calls := by
    unfold perform
    dsimp only
    split
    next => exact h.filed
    next => exact List.nil_sublist done
  filed := h.filed

theorem Sound.run (h : k.Sound room done) (uses : List Use)
    (hadmissible : ∀ c ∈ recorded uses, Admissible room c) :
    (k.run uses).Sound room (done ++ recorded uses) := by
  induction uses generalizing k done with
  | nil => rwa [recorded, List.append_nil]
  | cons use rest ih =>
    cases use with
    | record c =>
      rw [recorded, List.append_cons]
      obtain ⟨hc, hrest⟩ := List.forall_mem_cons.mp hadmissible
      exact ih (h.record hc) hrest
    | save => exact ih h.save hadmissible
    | reload maxSamples maxDepth => exact ih (h.reload maxSamples maxDepth) hadmissible

end Kept

/-! ## Names and samples -/

/-- A call declared the name that is recorded at an index, or none where none is. -/
def Declares (names : List String) (index : Nat) (c : Recording) : Prop :=
  c.paramNames[index]? = names[index]?

/-- What is promised to a reader of the file: each sample kept in a slot came from a call that
declared the name recorded for the slot. -/
def Kept.RightlyLabelled (k : Kept) : Prop :=
  ∀ name r, k.store.get? name = some r → ∀ index < r.paramNames.length,
    ∀ push ∈ sources index (callsOf name k.calls) ((r.samples? index).getD []),
      Declares r.paramNames index push.1

section Labels

variable {capacity index : Nat} {names : List String} {samples : List Json}
  {before since : List Recording}

/-- What the samples of a slot have to do with the names recorded for their function, by its calls:
the samples are the newest that these pushed to the slot, as many as there is room for, and the
only ones that may have come from calls under another name are the oldest. -/
structure Labelled (capacity index : Nat) (calls : List Recording) (names : List String)
    (samples : List Json) : Prop where
  came : Sourced index calls samples
  bounded : samples.length ≤ capacity
  /-- Of the samples from before the name was last changed, no more are left than the ones pushed
  since leave room for. -/
  stale : ∀ before since, calls = before ++ since → (∀ c ∈ since, Declares names index c) →
    ∃ older newer, sources index calls samples = older ++ newer ∧
      older <:+ pushes index before ∧ (∀ push ∈ newer, Declares names index push.1) ∧
      (older = [] ∨ older.length + (pushes index since).length ≤ capacity)
  /-- Where the name has never changed, every sample is rightly labelled, -/
  unchanged : (∀ c ∈ calls, Declares names index c) →
    ∀ push ∈ sources index calls samples, Declares names index push.1
  /-- and again as soon as the slot is full of samples pushed since. -/
  refilled : ∀ before since, calls = before ++ since → (∀ c ∈ since, Declares names index c) →
    capacity ≤ (pushes index since).length →
      ∀ push ∈ sources index calls samples, Declares names index push.1

/-- The samples of a slot are those that the last calls pushed and, if there is room for more,
some from before. -/
theorem sources_append (index : Nat) (before since : List Recording) (samples : List Json) :
    sources index (before ++ since) samples =
      newest (samples.length - (pushes index since).length) (pushes index before) ++
        newest samples.length (pushes index since) := by
  rw [sources, pushes_append, newest_append]

theorem mem_calls_of_mem_sources {push : Recording × Json}
    (h : push ∈ sources index calls samples) : push.1 ∈ calls :=
  mem_calls_of_mem_pushes (mem_of_mem_newest h)

theorem sources_of_full (h : samples.length ≤ (pushes index since).length) :
    sources index (before ++ since) samples = sources index since samples := by
  have hnone : newest 0 (pushes index before) = [] := by rw [newest, Nat.sub_zero, List.drop_length]
  rw [sources_append, Nat.sub_eq_zero_of_le h, hnone, List.nil_append, sources]

theorem labelled_of_sourced (hcame : Sourced index calls samples)
    (hbounded : samples.length ≤ capacity) : Labelled capacity index calls names samples where
  came := hcame
  bounded := hbounded
  stale := by
    rintro before since rfl hsince
    refine ⟨_, _, sources_append index before since samples, List.drop_suffix _ _, ?_, ?_⟩
    · exact fun push hpush => hsince push.1 (mem_calls_of_mem_sources hpush)
    · rw [← List.length_eq_zero_iff, length_newest]
      omega
  unchanged := fun hcalls push hpush => hcalls push.1 (mem_calls_of_mem_sources hpush)
  refilled := by
    rintro before since rfl hsince hfull push hpush
    rw [sources_of_full (Nat.le_trans hbounded hfull)] at hpush
    exact hsince push.1 (mem_calls_of_mem_sources hpush)

end Labels

namespace Kept

variable {room : Nat} {done : List Recording} {k : Kept} {name : String} {r : Record}

theorem Sound.last_call (h : k.Sound room done) (hr : k.store.get? name = some r) :
    ∃ earlier last, callsOf name k.calls = earlier ++ [last] ∧ r.paramNames = last.paramNames := by
  have hkept := h.store.kept name
  have hnames := (h.store.records name).paramNames
  rw [get?] at hr
  rw [hr] at hkept hnames
  obtain ⟨earlier, last, hlast⟩ := (List.eq_nil_or_concat _).resolve_left (hkept.mp rfl)
  rw [List.concat_eq_append] at hlast
  rw [hlast, List.getLast?_concat] at hnames
  exact ⟨earlier, last, hlast, hnames⟩

theorem Sound.labelled (h : k.Sound room done) (hr : k.store.get? name = some r) (index : Nat) :
    Labelled k.store.capacity index (callsOf name k.calls) r.paramNames
      ((r.samples? index).getD []) := by
  have hslot := (h.store.records name).slot index
  rw [show Entries.get? name k.store.entries = some r from hr] at hslot
  refine labelled_of_sourced hslot ?_
  cases hs : r.samples? index with
  | none => exact Nat.zero_le _
  | some samples => exact h.bounded.get? hr (index, samples) (Entries.mem_of_find? hs)

/-- The promise is kept as long as no function is called under other names than before. -/
theorem Sound.rightlyLabelled (h : k.Sound room done)
    (hsame : ∀ c ∈ k.calls, ∀ c' ∈ k.calls, c.name = c'.name → c.paramNames = c'.paramNames) :
    k.RightlyLabelled := by
  intro name r hr index _
  obtain ⟨earlier, last, hcalls, hnames⟩ := h.last_call hr
  have hmem : ∀ c ∈ callsOf name k.calls, c ∈ k.calls ∧ c.name = name := fun c hc => by
    simpa [callsOf] using hc
  have hlast := hmem last (hcalls ▸ List.mem_append_right _ (List.mem_singleton_self last))
  refine (h.labelled hr index).unchanged fun c hc => ?_
  have hc := hmem c hc
  rw [Declares, hnames, hsame c hc.1 last hlast.1 (hc.2.trans hlast.2.symm)]

end Kept

end Store

/-- A call names its parameters, and its samples were captured, down to whatever depth. -/
structure Recording.Proper (c : Recording) : Prop where
  named : c.paramNames ≠ []
  captured : ∃ maxDepth, c.Captured maxDepth

namespace Store

/-- Whatever the depths were, there is some room that all samples fit. -/
theorem exists_admissible {calls : List Recording} (h : ∀ c ∈ calls, c.Proper) :
    ∃ room, ∀ c ∈ calls, Admissible room c := by
  suffices hroom : ∃ room, ∀ c ∈ calls, ∀ x ∈ c.samples, x.2.Within room by
    obtain ⟨room, hroom⟩ := hroom
    exact ⟨room, fun c hc => ⟨(h c hc).named, hroom c hc⟩⟩
  induction calls with
  | nil => exact ⟨0, by simp⟩
  | cons c rest ih =>
    obtain ⟨hc, hrest⟩ := List.forall_mem_cons.mp h
    obtain ⟨depth, answer, args, w, w', hcapture⟩ := hc.captured
    obtain ⟨room, hroom⟩ := ih hrest
    refine ⟨max room (depth + 1), List.forall_mem_cons.mpr ⟨fun x hx => ?_, fun c hc x hx => ?_⟩⟩
    · obtain ⟨hformed, hdeep⟩ := within_of_captureArguments hcapture x hx
      exact ⟨hformed, Nat.le_trans hdeep (Nat.le_max_right _ _)⟩
    · obtain ⟨hformed, hdeep⟩ := hroom c hc x hx
      exact ⟨hformed, Nat.le_trans hdeep (Nat.le_max_left _ _)⟩

/-- The names recorded for a function are those of its last call, and its samples those that its
calls pushed last, whatever names these declared: from any store that starts empty, after any calls,
saves that succeed or fail, and loads, the samples of every slot came, in order, from calls that
were recorded. So what is kept at an index is rightly labelled except for what was pushed before the
name there was last changed, which stays until samples pushed since have taken its place. -/
theorem labelled_run (d : Disk) (path : Path) (maxSamples maxDepth : Nat) (uses : List Use)
    (htree : d.Tree) (hempty : ((fresh path maxSamples maxDepth).load d).1.isEmpty)
    (hcalls : ∀ c ∈ Kept.recorded uses, c.Proper) :
    let k := (Kept.start d path maxSamples maxDepth).run uses
    k.calls.Sublist (Kept.recorded uses) ∧
    (∀ name r, k.store.get? name = some r →
      (∃ earlier last, callsOf name k.calls = earlier ++ [last] ∧
        r.paramNames = last.paramNames) ∧
      ∀ index, Labelled k.store.capacity index (callsOf name k.calls) r.paramNames
        ((r.samples? index).getD [])) ∧
    ((∀ c ∈ k.calls, ∀ c' ∈ k.calls, c.name = c'.name → c.paramNames = c'.paramNames) →
      k.RightlyLabelled) := by
  intro k
  obtain ⟨room, hadmissible⟩ := exists_admissible hcalls
  have hsound : k.Sound room (Kept.recorded uses) :=
    (Kept.sound_start htree hempty).run uses hadmissible
  exact ⟨hsound.calls, fun name r hr => ⟨hsound.last_call hr, hsound.labelled hr⟩,
    hsound.rightlyLabelled⟩

end Store

/-- A call of a function with an integer, under a name for its parameter. -/
def Recording.under (param : String) (i : Int64) : Recording :=
  { Recording.ofInteger "m.f" i with paramNames := [param] }

theorem Recording.proper_under (param : String) (i : Int64) : (under param i).Proper where
  named := List.cons_ne_nil param []
  captured := ⟨0, fun _ => pure none, { positional := [.int i], keywords := [] }, .empty, .empty,
    rfl⟩

namespace Store

/-- Where a function is called under one name for its parameter and then under another, the first
sample is kept under a name that its call did not declare. -/
theorem not_rightlyLabelled_renamed :
    let uses : List Use := [.record (.under "a" 1), .record (.under "b" 2)]
    let k := (Kept.start (Disk.empty []) { text := "c.json" } 5 10).run uses
    (∀ c ∈ Kept.recorded uses, c.Proper) ∧ ¬k.RightlyLabelled := by
  intro uses k
  refine ⟨?_, fun hright => ?_⟩
  · simp only [uses, Kept.recorded, List.forall_mem_cons]
    exact ⟨Recording.proper_under "a" 1, Recording.proper_under "b" 2, by simp⟩
  · have hsome : (k.store.get? "m.f").map (fun r =>
        (r.paramNames, ((r.samples? 0).getD []).length)) = some (["b"], 2) := by decide +kernel
    obtain ⟨r, hr, hrecord⟩ := Option.map_eq_some_iff.mp hsome
    obtain ⟨hnames, hlength⟩ := Prod.mk.inj hrecord
    have hpushes : pushes 0 (callsOf "m.f" k.calls) =
        [(.under "a" 1, .ofNat 1), (.under "b" 2, .ofNat 2)] := rfl
    have hfirst : (Recording.under "a" 1, Json.ofNat 1) ∈
        sources 0 (callsOf "m.f" k.calls) ((r.samples? 0).getD []) := by
      rw [sources, hlength, hpushes]
      exact List.mem_cons_self
    have hname := hright "m.f" r hr 0 (by simp [hnames]) _ hfirst
    rw [Declares, hnames] at hname
    exact absurd hname (by decide)

/-- A slot with room for one sample is rightly labelled again after the second call, also if the
store was saved and loaded in between. -/
theorem labelled_run_renamed :
    let uses : List Use := [.record (.under "a" 1), .save, .reload 1 10, .record (.under "b" 2)]
    let k := (Kept.start (Disk.empty []) { text := "c.json" } 1 10).run uses
    (callsOf "m.f" k.calls).map Recording.paramNames = [["a"], ["b"]] ∧
    ∃ r, k.store.get? "m.f" = some r ∧ r.paramNames = ["b"] ∧
      ∀ push ∈ sources 0 (callsOf "m.f" k.calls) ((r.samples? 0).getD []),
        Declares ["b"] 0 push.1 := by
  intro uses k
  obtain ⟨hcalls, hsome, hsince, hfull⟩ :
      (callsOf "m.f" k.calls).map Recording.paramNames = [["a"], ["b"]] ∧
      (k.store.get? "m.f").map Record.paramNames = some ["b"] ∧
      (∀ c ∈ (callsOf "m.f" k.calls).drop 1, c.paramNames[0]? = ["b"][0]?) ∧
      k.store.capacity ≤ (pushes 0 ((callsOf "m.f" k.calls).drop 1)).length := by decide +kernel
  obtain ⟨r, hr, hnames⟩ := Option.map_eq_some_iff.mp hsome
  have hproper : ∀ c ∈ Kept.recorded uses, c.Proper := by
    simp only [uses, Kept.recorded, List.forall_mem_cons]
    exact ⟨Recording.proper_under "a" 1, Recording.proper_under "b" 2, by simp⟩
  obtain ⟨-, hrecords, -⟩ := labelled_run (Disk.empty []) { text := "c.json" } 1 10 uses
    (Disk.tree_empty []) (by decide +kernel) hproper
  have hrefilled := ((hrecords "m.f" r hr).2 0).refilled
  rw [hnames] at hrefilled
  exact ⟨hcalls, r, hr, hnames, hrefilled ((callsOf "m.f" k.calls).take 1)
    ((callsOf "m.f" k.calls).drop 1) (List.take_append_drop 1 _).symm hsince hfull⟩

end Store

end CallSampler
