import CallSampler.Proofs.Calls.Counting
import CallSampler.Proofs.Calls.Kinds
import CallSampler.Proofs.Session.Grounded
import CallSampler.Proofs.Store.Acceptance
import CallSampler.Proofs.Store.History
import CallSampler.Proofs.Store.Reload
import CallSampler.Proofs.Summary.Functions
import Mathlib.Data.List.Basic

/-!
# From calls to their summary

What a summary of a saved file tells of a run is what the calls of the run passed: a function is
listed if a call of it was recorded, with the number of these calls, and under each index with the
kinds of the last arguments captured there (`Summary.Reports`). The trail of a run gives the calls,
the history of a function what its record keeps of them, and the file gives the records back
(`summary_of_run`).
-/

namespace CallSampler

/-! ## Calls as a store takes them -/

/-- What the file format asks of calls: indices and counts that fit a machine word, and floats that
read back from their texts. -/
structure Storable (calls : List RecordedCall) : Prop where
  index_lt : ∀ c ∈ calls, ∀ s ∈ c.samples, s.1 < wordLimit
  floats : ∀ c ∈ calls, ∀ s ∈ c.samples, s.2.FloatsReadBack
  count_lt : ∀ name, calls.countP (·.label == name) < wordLimit

namespace RecordedCall

/-- The call as a store takes it. -/
def recording (c : RecordedCall) : Recording where
  name := c.label
  samples := c.samples.filter (·.1 < wordLimit)
  paramNames := c.paramNames
  index_lt := fun s hs => by simpa using (List.mem_filter.mp hs).2

theorem samples_recording {c : RecordedCall} (h : ∀ s ∈ c.samples, s.1 < wordLimit) :
    c.recording.samples = c.samples :=
  List.filter_eq_self.mpr fun s hs => by simpa using h s hs

/-- As long as there is room in the counts, calls are recorded whatever the host does when there is
not. -/
theorem foldl_into {calls : List RecordedCall} (h : ∀ c ∈ calls, ∀ s ∈ c.samples, s.1 < wordLimit)
    (o : Overflow) {store : Store}
    (hroom : ∀ name, store.callCount name + calls.countP (·.label == name) < wordLimit) :
    calls.foldl (into o) store = store.recordAll (calls.map recording) := by
  induction calls generalizing store with
  | nil => rfl
  | cons c rest ih =>
    obtain ⟨hc, hrest⟩ := List.forall_mem_cons.mp h
    have hone : store.callCount c.label + 1 < wordLimit := by
      have hlabel := hroom c.label
      rw [List.countP_cons, beq_self_eq_true, if_pos rfl] at hlabel
      omega
    have hinto : c.into o store = store.record c.recording := by
      rw [into, Store.keep_of_room o hone, Store.record, samples_recording hc]
      rfl
    have hnext : ∀ name,
        (c.into o store).callCount name + rest.countP (·.label == name) < wordLimit := by
      intro name
      have hname := hroom name
      have hle := o.count_le (store.callCount name + if c.label == name then 1 else 0)
      rw [← store.callCount_keep o c.label c.samples c.paramNames] at hle
      rw [List.countP_cons] at hname
      exact Nat.lt_of_le_of_lt (Nat.add_le_add_right hle _) (by omega)
    rw [List.foldl_cons, ih hrest hnext, hinto]
    rfl

/-- A call that was captured down to a depth is one that a store of that depth may record. -/
theorem captured_recording {c : RecordedCall} (h : c.Complete)
    (hindex : ∀ s ∈ c.samples, s.1 < wordLimit) : c.recording.Captured c.maxDepth := by
  obtain ⟨w, hw⟩ := h
  refine ⟨c.answer, c.args, c.before, w, ?_⟩
  rw [captureArguments_eq, samples_recording hindex]
  exact hw

end RecordedCall

/-! ## What a summary tells -/

/-- The arguments captured for a function at an index, in the order in which they were. -/
def argumentsOf (calls : List RecordedCall) (name : String) (index : Nat) : List CapturedArgument :=
  (calls.filter (·.label == name)).flatMap (RecordedCall.argumentsAt index)

/-- A summary reports calls: each function that was called is listed once with the number of its
calls, and has a slot for each index at which an argument was captured, which tells how many samples
are kept, as many as the capacity allows, and each kind of the last arguments once, in the order in
which they first appear. -/
structure Summary.Reports (capacity : Nat) (calls : List RecordedCall) (s : Summary) : Prop where
  once : (s.functions.map FunctionSummary.name).Nodup
  listed : ∀ name, name ∈ s.functions.map FunctionSummary.name ↔ ∃ c ∈ calls, c.label = name
  callCount : ∀ f ∈ s.functions, f.callCount = calls.countP (·.label == f.name)
  absent : ∀ f ∈ s.functions, ∀ index, argumentsOf calls f.name index = [] →
    f.slots.filter (·.index == index) = []
  slot : ∀ f ∈ s.functions, ∀ index, argumentsOf calls f.name index ≠ [] →
    ∃ name, f.slots.filter (·.index == index) =
      [{ index, name
         samples := min capacity (argumentsOf calls f.name index).length
         kinds := ((newest capacity (argumentsOf calls f.name index)).map
           CapturedArgument.kind).eraseDups }]

/-- All that happened to a function of which nothing was loaded. -/
def historyOf (calls : List RecordedCall) (name : String) : History where
  loaded? := none
  calls := Store.callsOf name (calls.map RecordedCall.recording)

section Reports

variable {calls : List RecordedCall} {capacity : Nat} {store : Store} {name : String} {index : Nat}

theorem calls_historyOf : (historyOf calls name).calls =
    (calls.filter (·.label == name)).map RecordedCall.recording := by
  rw [historyOf, Store.callsOf, List.filter_map]
  rfl

theorem callCount_historyOf :
    (historyOf calls name).callCount = calls.countP (·.label == name) := by
  rw [History.callCount, calls_historyOf, List.length_map, List.countP_eq_length_filter]
  exact Nat.zero_add _

/-- The samples that were pushed to a slot are of the kinds of the arguments there. -/
theorem kinds_pushed (hcomplete : ∀ c ∈ calls, c.Complete) (hs : Storable calls) (name : String)
    (index : Nat) : ((historyOf calls name).pushed index).map Json.kind =
      (argumentsOf calls name index).map CapturedArgument.kind := by
  rw [History.pushed, calls_historyOf, argumentsOf, List.flatMap_map, List.map_flatMap,
    List.map_flatMap]
  refine List.flatMap_congr fun c hc => ?_
  have hmem := (List.mem_filter.mp hc).1
  rw [RecordedCall.samples_recording (hs.index_lt c hmem)]
  exact RecordedCall.kinds_pushedTo (hcomplete c hmem) index

/-- A slot keeps the newest of the samples that were pushed to it. -/
theorem samples?_of_explains {r : Record}
    (he : (historyOf calls name).Explains capacity (some r)) :
    r.samples? index = if (historyOf calls name).pushed index = [] then none
      else some (newest capacity ((historyOf calls name).pushed index)) := by
  have hslot := he.slot index
  have hnone : (historyOf calls name).loadedSlot? index = none := rfl
  rw [Option.getD_some, hnone] at hslot
  rw [hslot]
  by_cases hpushed : (historyOf calls name).pushed index = []
  · simp [Record.slotAfter, hpushed]
  · simp [Record.slotAfter, hpushed]

/-- A function is listed with a record that is explained by its calls. -/
theorem exists_explained
    (hexplained : ∀ name, (historyOf calls name).Explains capacity (store.get? name))
    {f : FunctionSummary} (hf : f ∈ (Summary.ofRecords store.entries).functions) :
    ∃ r, f = .ofRecord f.name r ∧ (historyOf calls f.name).Explains capacity (some r) := by
  obtain ⟨r, hr, hfr⟩ := Summary.exists_of_mem store.distinct hf
  have he := hexplained f.name
  rw [Store.get?, hr] at he
  exact ⟨r, hfr, he⟩

/-- The summary of a store that is explained by calls alone reports them. -/
theorem reports_ofRecords (hcomplete : ∀ c ∈ calls, c.Complete) (hs : Storable calls)
    (hexplained : ∀ name, (historyOf calls name).Explains capacity (store.get? name)) :
    (Summary.ofRecords store.entries).Reports capacity calls where
  once := Summary.nodup_names store.distinct
  listed := by
    intro name
    have hkept := (hexplained name).kept
    rw [calls_historyOf] at hkept
    rw [Summary.mem_names_iff store.distinct]
    refine hkept.trans ?_
    simp [historyOf]
  callCount := by
    intro f hf
    obtain ⟨r, hfr, he⟩ := exists_explained hexplained hf
    have hcount := he.callCount
    rw [callCount_historyOf, Nat.mod_eq_of_lt (hs.count_lt f.name)] at hcount
    rw [hfr]
    exact hcount
  absent := by
    intro f hf index hnone
    obtain ⟨r, hfr, he⟩ := exists_explained hexplained hf
    have hpushed : (historyOf calls f.name).pushed index = [] := by
      have hkinds := kinds_pushed hcomplete hs f.name index
      rw [hnone] at hkinds
      exact List.map_eq_nil_iff.mp hkinds
    rw [hfr, FunctionSummary.filter_slots, samples?_of_explains he, if_pos hpushed]
    rfl
  slot := by
    intro f hf index hsome
    obtain ⟨r, hfr, he⟩ := exists_explained hexplained hf
    have hkinds := kinds_pushed hcomplete hs f.name index
    have hlength := congrArg List.length hkinds
    rw [List.length_map, List.length_map] at hlength
    have hpushed : (historyOf calls f.name).pushed index ≠ [] := by
      intro hnil
      rw [hnil] at hkinds
      exact hsome (List.map_eq_nil_iff.mp hkinds.symm)
    refine ⟨r.paramName? index, ?_⟩
    rw [hfr, FunctionSummary.filter_slots, samples?_of_explains he, if_neg hpushed,
      Option.map_some, Option.toList_some, SlotSummary.ofSlot, length_newest, hlength,
      firstAppearances_eq, map_newest, hkinds, map_newest]
    rfl

end Reports

/-! ## The store of a run -/

section Run

variable {config : Config} {d d' : Disk} {calls : List RecordedCall} {o : Overflow}

/-- The store of some settings where no file is: it has nothing loaded, and records calls. -/
def Config.storeAfter (config : Config) (d : Disk) (o : Overflow) (calls : List RecordedCall) :
    Store :=
  calls.foldl (RecordedCall.into o) (config.store.load d).1

theorem storeAfter_eq (hfile : d.pathExists config.cacheFile = false) (hs : Storable calls) :
    config.storeAfter d o calls =
      (config.store.load d).1.recordAll (calls.map RecordedCall.recording) := by
  refine RecordedCall.foldl_into hs.index_lt o fun name => ?_
  have hnone : FileEntries.read d config.store.path = .ok none :=
    FileEntries.read_eq_none_iff.mpr hfile
  have hzero : (config.store.load d).1.callCount name = 0 := by
    rw [Store.load, hnone]
    rfl
  rw [hzero, Nat.zero_add]
  exact hs.count_lt name

theorem path_storeAfter (hfile : d.pathExists config.cacheFile = false) (hs : Storable calls) :
    (config.storeAfter d o calls).path = config.cacheFile := by
  rw [storeAfter_eq hfile hs, Store.path_recordAll, Store.path_load]
  rfl

/-- Where no file is, the calls are all that happened to a function. -/
theorem explained_storeAfter (hfile : d.pathExists config.cacheFile = false) (hs : Storable calls)
    (name : String) : (historyOf calls name).Explains config.store.capacity
      ((config.storeAfter d o calls).get? name) := by
  have hnone : FileEntries.loaded? d config.cacheFile name = none := by
    rw [FileEntries.loaded?, FileEntries.read_eq_none_iff.mpr hfile]
  obtain ⟨hexplains, -⟩ := Store.refines_history d config.cacheFile config.maxSamples
    config.maxDepth (calls.map RecordedCall.recording) name
  rw [hnone] at hexplains
  rw [storeAfter_eq hfile hs]
  exact hexplains

theorem floatsReadBack_storeAfter (hfile : d.pathExists config.cacheFile = false)
    (hs : Storable calls) : (config.storeAfter d o calls).FloatsReadBack := by
  have hempty : (config.store.load d).1.FloatsReadBack := by
    refine Store.Every.load fun file hread => ?_
    have hnone : FileEntries.read d config.store.path = .ok none :=
      FileEntries.read_eq_none_iff.mpr hfile
    rw [hnone] at hread
    cases hread
  rw [storeAfter_eq hfile hs]
  refine hempty.recordAll fun r hr x hx => ?_
  obtain ⟨c, hc, rfl⟩ := List.mem_map.mp hr
  rw [RecordedCall.samples_recording (hs.index_lt c hc)] at hx
  exact hs.floats c hc x hx

theorem durable_storeAfter (hfile : d.pathExists config.cacheFile = false)
    (hdepth : config.maxDepth ≤ 122)
    (hcalls : ∀ c ∈ calls, c.maxDepth = config.maxDepth ∧ c.Complete) (hs : Storable calls) :
    (config.storeAfter d o calls).Durable := by
  rw [storeAfter_eq hfile hs]
  refine (Store.durable_load d config.store).recordAll ?_ fun r hr => ?_
  · rw [Store.maxDepth_load]
    exact hdepth
  · obtain ⟨c, hc, rfl⟩ := List.mem_map.mp hr
    obtain ⟨hlimit, hcomplete⟩ := hcalls c hc
    rw [Store.maxDepth_load]
    show c.recording.Captured config.maxDepth
    rw [← hlimit]
    exact RecordedCall.captured_recording hcomplete (hs.index_lt c hc)

/-- Such a store is empty only if nothing was recorded. -/
theorem eq_nil_of_storeAfter (hfile : d.pathExists config.cacheFile = false) (hs : Storable calls)
    (h : (config.storeAfter d o calls).entries = []) : calls = [] := by
  refine List.eq_nil_iff_forall_not_mem.mpr fun c hc => ?_
  have hkept := (explained_storeAfter (o := o) hfile hs c.label).kept
  rw [calls_historyOf, Store.get?, h] at hkept
  have hcalled : (calls.filter (·.label == c.label)).map RecordedCall.recording ≠ [] := by
    refine List.ne_nil_of_mem (List.mem_map_of_mem (List.mem_filter.mpr ⟨hc, ?_⟩))
    exact beq_self_eq_true c.label
  exact Bool.false_ne_true (hkept.mpr (.inr hcalled))

/-- What a reader gets for the file of a store that was saved: what the summary reports, or word of
a missing file if there was nothing to save. -/
def Summary.Told (config : Config) (calls : List RecordedCall) (d : Disk) : SaveOutcome → Prop
  | .skippedEmpty =>
    calls = [] ∧ Summary.ofFile d config.cacheFile = .error (.missing config.cacheFile)
  | .written _ => ∃ s, Summary.ofFile d config.cacheFile = .ok (s, []) ∧
    s.Reports config.store.capacity calls

theorem told_of_save {outcome : SaveOutcome} (hfile : d.pathExists config.cacheFile = false)
    (hdepth : config.maxDepth ≤ 122)
    (hcalls : ∀ c ∈ calls, c.maxDepth = config.maxDepth ∧ c.Complete) (hs : Storable calls)
    (hsave : (config.storeAfter d o calls).save d = (.ok outcome, d')) :
    Summary.Told config calls d' outcome := by
  cases outcome with
  | skippedEmpty =>
    obtain ⟨hempty, rfl⟩ := Store.save_eq_skipped hsave
    have hread : FileEntries.read d' config.cacheFile = .ok none :=
      FileEntries.read_eq_none_iff.mpr hfile
    refine ⟨eq_nil_of_storeAfter hfile hs hempty, ?_⟩
    rw [Summary.ofFile, hread]
  | written n =>
    have hread := Store.fileEntries_save (durable_storeAfter hfile hdepth hcalls hs)
      (floatsReadBack_storeAfter hfile hs) hsave
    rw [path_storeAfter hfile hs] at hread
    refine ⟨.ofRecords (config.storeAfter d o calls).entries, ?_, ?_⟩
    · rw [Summary.ofFile, hread]
    · exact reports_ofRecords (fun c hc => (hcalls c hc).2) hs (explained_storeAfter hfile hs)

end Run

/-! ## The run -/

/-- The whole pipeline reports what the calls passed. Where nothing was installed and no file is, a
context is installed whose depth limit is 122 or less, a host program does any steps, and the
context is shut down and its store is saved. Then a reader of the file is told of the calls that the
steps recorded in that store. -/
theorem summary_of_run {s₀ : Session} (hgrounded : s₀.Grounded) {i : Nat}
    (hnone : s₀.installed? i = none) {config : Config} (hdepth : config.maxDepth ≤ 122)
    (hfile : s₀.disk.pathExists config.cacheFile = false) (steps : List (Nat × Step)) :
    let guard := (s₀.install i config).1
    let installed := (s₀.install i config).2
    let s := installed.perform steps
    ∃ ctx, s.contexts[guard.context]? = some ctx ∧
      let calls := (installed.trail steps).filter (·.store == ctx.store)
      Storable calls → ∀ outcome, (s.trySave ctx.store).1 = .ok outcome →
        Summary.Told config calls (s.shutDown guard.context).2.disk outcome := by
  intro guard installed s
  let σ := s₀.world.stores.size
  let rule : Nat → Nat → Prop := fun store depth => store = σ → depth = config.maxDepth
  obtain ⟨hguard, hstores, hdisk, hcontexts⟩ :
      Session.Installed config s₀ (s₀.install i config) := Session.installed_install hnone
  have hobeys : installed.Obeys rule := by
    refine hgrounded.install (fun store depth hlt heq => ?_) (fun _ => rfl) hnone
    exact absurd heq (Nat.ne_of_lt hlt)
  have hrecorded := Session.recorded_perform steps hobeys
  have hcontext : guard.context = s₀.contexts.size := congrArg Guard.context hguard
  let ctx : Context :=
    { config, store := σ, instrumentor := s₀.instrumentors.size, shutDown := false }
  have hctx : s.contexts[guard.context]? = some ctx := by
    rw [hrecorded.contexts, hcontexts, hcontext]
    exact Array.getElem?_push_size
  refine ⟨ctx, hctx, fun hs outcome hsaved => ?_⟩
  let calls := (installed.trail steps).filter (·.store == σ)
  let o := installed.world.overflow
  have hstore : s.world.stores[σ]? = some (config.storeAfter s₀.disk o calls) := by
    rw [hrecorded.world.stores σ, hstores, Array.getElem?_push_size]
    rfl
  have hsame : s.disk = s₀.disk := hrecorded.disk.trans hdisk
  have hcalls : ∀ c ∈ calls, c.maxDepth = config.maxDepth ∧ c.Complete := by
    intro c hc
    obtain ⟨hmem, hstore⟩ := List.mem_filter.mp hc
    obtain ⟨hrule, hcomplete⟩ := hrecorded.world.calls c hmem
    exact ⟨hrule (eq_of_beq hstore), hcomplete⟩
  have hsave : ((config.storeAfter s₀.disk o calls).save s₀.disk).1 = .ok outcome := by
    rw [Session.trySave, hstore, hsame] at hsaved
    exact hsaved
  have hshut : (s.shutDown guard.context).2.disk =
      ((config.storeAfter s₀.disk o calls).save s₀.disk).2 := by
    rw [(Session.shutDown_of_open hctx rfl hstore).2.disk]
    exact congrArg (fun d => ((config.storeAfter s₀.disk o calls).save d).2) hsame
  rw [hshut]
  exact told_of_save hfile hdepth hcalls hs (Prod.ext hsave rfl)

section CallTwice

variable {calls : List RecordedCall}

/-- Import a module and call its function twice. -/
def callTwice : List (Nat × Step) :=
  let call : Step := .callBinding 0 "add" { positional := [.list []], keywords := [] }
  [(1, .import 0 "m"), (1, call), (1, call)]

theorem grounded_oneAdder : Program.oneAdder.Grounded :=
  (Session.grounded_empty (Disk.empty [])).addImporter.setSource 0 "m" (.deferred _ 0) trivial
    |>.obeys

theorem storable_of_atoms
    (hindex : ∀ c ∈ calls, ∀ s ∈ c.samples, s.1 < wordLimit)
    (hatoms : ∀ c ∈ calls, ∀ s ∈ c.samples, s.2.kind ≠ .float ∧ s.2.parts = [])
    (hlength : calls.length < wordLimit) : Storable calls where
  index_lt := hindex
  floats := by
    intro c hc s hs
    obtain ⟨hkind, hparts⟩ := hatoms c hc s hs
    exact Json.floatsReadBack_of_atom hkind hparts
  count_lt := fun name => Nat.lt_of_le_of_lt List.countP_le_length hlength

/-- Both calls are counted, and a list was passed to each. -/
theorem summary_of_run_call_twice :
    let config : Config := .ofPaths { text := "/c" } { text := "/w" }
    let installed := (Program.oneAdder.install 0 config).2
    let calls := (installed.trail callTwice).filter (·.store == 0)
    let last := ((installed.perform callTwice).shutDown 0).2
    calls.map RecordedCall.label = ["m.add", "m.add"] ∧
      (argumentsOf calls "m.add" 0).map CapturedArgument.kind = [.list, .list] ∧
      Summary.Told config calls last.disk (.written 1) := by
  intro config installed calls last
  have hlabels : calls.map RecordedCall.label = ["m.add", "m.add"] := by decide +kernel
  have hstorable : Storable calls := by
    have hlength := congrArg List.length hlabels
    rw [List.length_map] at hlength
    exact storable_of_atoms (by decide +kernel) (by decide +kernel) (by rw [hlength]; decide)
  have hguard : (Program.oneAdder.install 0 config).1.context = 0 := by decide +kernel
  have hctx' : ((installed.perform callTwice).contexts[0]?).map Context.store = some 0 := by
    decide +kernel
  have hsaved : ((installed.perform callTwice).trySave 0).1.toOption = some (.written 1) := by
    decide +kernel
  obtain ⟨ctx, hctx, htold⟩ := @summary_of_run _ grounded_oneAdder 0 rfl config (by decide)
    (by decide +kernel) callTwice
  rw [hguard] at hctx htold
  rw [hctx] at hctx'
  rw [show ctx.store = 0 from Option.some.inj hctx'] at htold
  replace htold := htold hstorable (.written 1)
  refine ⟨hlabels, by decide +kernel, ?_⟩
  dsimp only [last, calls, installed] at hsaved ⊢
  refine htold ?_
  cases houtcome : ((installed.perform callTwice).trySave 0).1 with
  | ok outcome =>
    rw [houtcome] at hsaved
    exact congrArg Except.ok (Option.some.inj hsaved)
  | error e =>
    rw [houtcome] at hsaved
    cases hsaved

end CallTwice

end CallSampler
