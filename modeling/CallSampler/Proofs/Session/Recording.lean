import CallSampler.Proofs.Calls.Trails
import CallSampler.Proofs.Session.Steps
import CallSampler.Proofs.Transparency.Hooks

/-!
# What a host program does to a session

A step of a host program writes no file, installs and closes no context and attaches no hook; all
that it does to a store is to record calls in it (`Session.Recorded`). A rule that every interceptor
in a session obeys, and that every instrumentor keeps when it wraps functions, is kept by it
(`Session.Obeys`): what it builds and loads holds no interceptor, and what is wrapped records to the
store of an instrumentor at the depth limit of that store. So a step records the calls of its trail,
all by the rule (`Step.records_run`): an import by induction on its fuel, and all else one part
after the other. So does a list of steps (`Session.recorded_perform`).
-/

namespace CallSampler

/-! ## Rules in a session -/

/-- The depth limit of a store, which an interceptor for it takes over. -/
def World.depthOf (w : World) (store : Nat) : Nat := ((w.stores[store]?).map Store.maxDepth).getD 0

def Source.Obeys (P : Nat → Nat → Prop) : Source → Prop
  | .ready m => m.Obeys P
  | .deferred _ _ => True

/-- Every interceptor in a session obeys a rule, and so will those that its instrumentors make. -/
structure Session.Obeys (P : Nat → Nat → Prop) (s : Session) : Prop where
  heap : s.world.heap.Obeys P
  modules : ∀ m ∈ s.modules, m.Obeys P
  sources : ∀ imp ∈ s.importers, ∀ e ∈ imp.sources, e.2.Obeys P
  instrumentors : ∀ inst ∈ s.instrumentors, P inst.store (s.world.depthOf inst.store)

namespace Session

variable {P : Nat → Nat → Prop} {s s' s'' : Session} {calls more : List RecordedCall}

theorem obeys_empty (disk : Disk) : (empty disk).Obeys P where
  heap := heap_obeys_empty
  modules := by simp [empty]
  sources := by simp [empty]
  instrumentors := by simp [empty]

/-- A rule that always holds is obeyed everywhere. -/
theorem obeys_of_forall (hP : ∀ store depth, P store depth) (s : Session) : s.Obeys P where
  heap := s.world.heap.obeys_of_forall hP
  modules := fun m _ => obeyNamed_of_forall hP m.bindings
  sources := by
    intro imp _ e _
    cases e.2 with
    | ready m => exact obeyNamed_of_forall hP m.bindings
    | deferred loader runs => trivial
  instrumentors := fun inst _ => hP inst.store _

/-- From one session to another the stores recorded some calls, the disk, the contexts and the hooks
stayed as they were, and all interceptors obey the rule. -/
structure Recorded (P : Nat → Nat → Prop) (s s' : Session) (calls : List RecordedCall) : Prop where
  world : CallSampler.Recorded P s.world s'.world calls
  disk : s'.disk = s.disk
  contexts : s'.contexts = s.contexts
  hooks : s'.importers.map Importer.hooks = s.importers.map Importer.hooks
  obeys : s'.Obeys P

theorem Recorded.trans (h : Recorded P s s' calls) (h' : Recorded P s' s'' more) :
    Recorded P s s'' (calls ++ more) where
  world := h.world.trans h'.world
  disk := h'.disk.trans h.disk
  contexts := h'.contexts.trans h.contexts
  hooks := h'.hooks.trans h.hooks
  obeys := h'.obeys

theorem Obeys.refl (h : s.Obeys P) : Recorded P s s [] :=
  ⟨recorded_nothing rfl h.heap rfl, rfl, rfl, rfl, h⟩

/-- Recording calls changes no depth limit. -/
theorem depthOf_of_recorded {w w' : World} (h : CallSampler.Recorded P w w' calls) (k : Nat) :
    w'.depthOf k = w.depthOf k := by
  have hfold := RecordedCall.foldl_into_same (f := Store.maxDepth) fun s c =>
    s.maxDepth_keep w.overflow c.label c.samples c.paramNames
  unfold World.depthOf
  rw [h.stores k, Option.map_map]
  simp only [Function.comp_def, hfold]

/-- Where only the world changes, the rule is about its heap. -/
theorem Obeys.of_world {w : World} (h : s.Obeys P) (hw : CallSampler.Recorded P s.world w calls) :
    Recorded P s { s with world := w } calls where
  world := hw
  disk := rfl
  contexts := rfl
  hooks := rfl
  obeys :=
    { heap := hw.heap
      modules := h.modules
      sources := h.sources
      instrumentors := by
        intro inst hinst
        have hdepth := depthOf_of_recorded hw inst.store
        exact hdepth ▸ h.instrumentors inst hinst }

theorem Obeys.notify (h : s.Obeys P) (n : Notice) : Recorded P s (s.notify n) [] :=
  h.of_world (recorded_nothing rfl h.heap rfl)

theorem Obeys.onImporter (h : s.Obeys P) (i : Nat) {g : Importer → Importer}
    (hg : ∀ imp : Importer, (∀ e ∈ imp.sources, e.2.Obeys P) → ∀ e ∈ (g imp).sources, e.2.Obeys P)
    (hooks : ∀ imp, (g imp).hooks = imp.hooks) : Recorded P s (s.onImporter i g) [] where
  world := recorded_nothing rfl h.heap rfl
  disk := rfl
  contexts := rfl
  hooks := map_onImporter hooks i s
  obeys := ⟨h.heap, h.modules, forall_mem_modify h.sources i hg, h.instrumentors⟩

/-- Sources are set or erased one at a time. -/
theorem Obeys.setSource (h : s.Obeys P) (i : Nat) (name : String) (source : Source)
    (hsource : source.Obeys P) :
    Recorded P s (s.onImporter i fun imp =>
      { imp with sources := Entries.set name source imp.sources }) [] := by
  refine h.onImporter i (fun imp himp e he => ?_) fun _ => rfl
  rcases Entries.mem_put he with hvalue | hold
  · rw [hvalue]
    exact hsource
  · exact himp e hold

theorem Obeys.addModule (h : s.Obeys P) {m : Module} (hm : m.Obeys P) :
    Recorded P s (s.addModule m).2 [] where
  world := recorded_nothing rfl h.heap rfl
  disk := rfl
  contexts := rfl
  hooks := rfl
  obeys := by
    refine ⟨h.heap, fun m' hm' => ?_, h.sources, h.instrumentors⟩
    rcases Array.mem_push.mp hm' with hold | rfl
    · exact h.modules m' hold
    · exact hm

theorem Obeys.onHeap {α : Type} {Q : α → Prop} {p : Heap → α × Heap} (h : s.Obeys P)
    (hp : Building P Q p) :
    Q (p s.world.heap).1 ∧ Recorded P s (s.onWorld (World.onHeap p)).2 [] :=
  ⟨(hp _ h.heap).1, h.of_world (recorded_nothing rfl (hp _ h.heap).2 rfl)⟩

/-! ## Wrapping -/

theorem Obeys.wrapFunction (store m : Nat) (moduleName name : String) {f : Callable}
    {done : (List String × List String) × Session} (h : done.2.Obeys P) (hf : f.Obeys P)
    (hrule : P store (done.2.world.depthOf store)) :
    Recorded P done.2 (Session.wrapFunction store m moduleName name f done).2 [] := by
  obtain ⟨⟨wrapped, failed⟩, s⟩ := done
  let wrap := intercept (qualify moduleName name) store f
  have hwrapper : (Value.function (s.onWorld wrap).1).Obeys P := ⟨hrule, hf⟩
  have hmade : Recorded P s (s.onWorld wrap).2 [] :=
    h.of_world (recorded_nothing rfl (h.heap.of_cells _ _) rfl)
  have hs := hmade.obeys
  unfold Session.wrapFunction
  dsimp only
  split
  next md hmd =>
    obtain ⟨old, hold, hassign⟩ := Option.map_eq_some_iff.mp hmd
    have hmd : md.Obeys P := by
      unfold Module.assign at hassign
      split at hassign
      next => cases hassign
      next =>
        cases hassign
        exact (hs.modules old (Array.mem_of_getElem? hold)).bindName name hwrapper
    have hmodules := forall_mem_modify hs.modules m (f := fun _ => md) fun _ _ => hmd
    exact hmade.trans ⟨recorded_nothing rfl hs.heap rfl, rfl, rfl, rfl,
      hs.heap, hmodules, hs.sources, hs.instrumentors⟩
  next e _ => exact hmade.trans (hs.notify _)
  next => exact hmade

theorem Obeys.wrapFunctions (h : s.Obeys P) {store : Nat} (m : Nat) {md : Module}
    (hmd : md.Obeys P) (hrule : P store (s.world.depthOf store)) :
    Recorded P s (s.wrapFunctions store m md).2 [] := by
  suffices hfold : ∀ (bindings : List (String × Value))
      (done : (List String × List String) × Session), ObeyNamed P bindings → done.2.Obeys P →
      P store (done.2.world.depthOf store) →
      Recorded P done.2 (bindings.foldl (wrapBinding store m md.name) done).2 [] from
    hfold md.bindings (([], []), s) hmd h hrule
  intro bindings
  induction bindings with
  | nil => exact fun done _ hdone _ => hdone.refl
  | cons binding rest ih =>
    intro done hbindings hdone hrule
    obtain ⟨hbinding, hrest⟩ := List.forall_mem_cons.mp hbindings
    have hstep : Recorded P done.2 (wrapBinding store m md.name done binding).2 [] := by
      unfold wrapBinding
      split
      next f hf =>
        rw [wrappable?_eq_some hf] at hbinding
        exact hdone.wrapFunction store m md.name binding.1 hbinding hrule
      next => exact hdone.refl
    refine hstep.trans (ih _ hrest hstep.obeys ?_)
    rw [depthOf_of_recorded hstep.world]
    exact hrule

theorem Obeys.evaluate (h : s.Obeys P) (i m : Nat) : Recorded P s (s.evaluate i m).2 [] := by
  have hremember : ∀ {s' : Session} (name : String) (state : ModuleState),
      Recorded P s s' [] → Recorded P s { s' with
        instrumentors := s'.instrumentors.modify i fun inst =>
          { inst with processed := Entries.set name state inst.processed } } [] := by
    intro s' name state hs'
    let remember (inst : Instrumentor) : Instrumentor :=
      { inst with processed := Entries.set name state inst.processed }
    have hkept := forall_mem_modify hs'.obeys.instrumentors i (f := remember) fun _ hinst => hinst
    exact ⟨hs'.world, hs'.disk, hs'.contexts, hs'.hooks,
      hs'.obeys.heap, hs'.obeys.modules, hs'.obeys.sources, hkept⟩
  unfold Session.evaluate
  split
  next inst md hinst hmd =>
    split
    next => exact h.refl
    next =>
      dsimp only
      split
      next => exact hremember _ _ h.refl
      next =>
        have hrule := h.instrumentors inst (Array.mem_of_getElem? hinst)
        exact hremember _ _ (h.wrapFunctions m (h.modules md (Array.mem_of_getElem? hmd)) hrule)
  next => exact h.refl

theorem Obeys.fire (h : s.Obeys P) (m : Nat) (hook : Hook) : Recorded P s (s.fire m hook) [] := by
  cases hook with
  | instrumentation c =>
    simp only [Session.fire, offer]
    split
    next ctx _ => exact h.evaluate ctx.instrumentor m
    next => exact h.refl
  | observer id =>
    simp only [Session.fire]
    split
    next =>
      exact ⟨recorded_nothing rfl h.heap rfl, rfl, rfl, rfl,
        h.heap, h.modules, h.sources, h.instrumentors⟩
    next => exact h.refl

theorem Obeys.fireHooks (h : s.Obeys P) (i m : Nat) : Recorded P s (s.fireHooks i m) [] := by
  unfold Session.fireHooks
  split
  next imp hfound =>
    clear hfound
    induction imp.hooks generalizing s with
    | nil => exact h.refl
    | cons hook rest ih =>
      have hfirst := h.fire m hook
      exact hfirst.trans (ih hfirst.obeys)
  next => exact h.refl

end Session

/-! ## Actions -/

def Answer.Obeys (P : Nat → Nat → Prop) : Answer → Prop
  | .module _ => True
  | .value v => v.Obeys P

/-- Wherever the rule is obeyed, an action records the calls of a trail, and returns something with
the property `Q` if it returns. -/
def Action.Records {ε α : Type} (P : Nat → Nat → Prop) (Q : α → Prop) (x : Action ε α)
    (t : Session → List RecordedCall) : Prop :=
  ∀ s : Session, s.Obeys P → Session.Recorded P s (x s).2 (t s) ∧ ∀ a, (x s).1 = .ok a → Q a

/-- An action that records nothing. -/
abbrev Action.Silent {ε α : Type} (P : Nat → Nat → Prop) (Q : α → Prop) (x : Action ε α) : Prop :=
  x.Records P Q fun _ => []

namespace Action

variable {ε ε' α β : Type} {P : Nat → Nat → Prop} {Q : α → Prop} {R : β → Prop} {x : Action ε α}
  {t : Session → List RecordedCall}

theorem silent_const {f : Session → Outcome ε α} (h : ∀ s a, f s = .ok a → Q a) :
    Silent P Q (fun s => (f s, s) : Action ε α) := fun s hs => ⟨hs.refl, h s⟩

theorem silent_update {f : Session → Session}
    (h : ∀ s : Session, s.Obeys P → Session.Recorded P s (f s) []) :
    Silent P (fun _ => True) (Run.update f : Action ε Unit) :=
  fun s hs => ⟨h s hs, fun _ _ => trivial⟩

theorem silent_onHeap {p : Heap → α × Heap} (hp : Building P Q p) :
    Silent P Q (Session.onHeap p : Action ε α) := by
  intro s hs
  obtain ⟨hvalue, hrecorded⟩ := hs.onHeap hp
  exact ⟨hrecorded, fun a ha => by cases ha; exact hvalue⟩

theorem Silent.bind {k : α → Action ε β} (hx : Silent P Q x) (hk : ∀ a, Q a → Silent P R (k a)) :
    Silent P R (x >>= k) := by
  intro s hs
  obtain ⟨hrecorded, hvalue⟩ := hx s hs
  rw [Run.bind_apply]
  rcases hxs : x s with ⟨a | e | p | _, s₁⟩
  · rw [hxs] at hrecorded hvalue
    obtain ⟨hmore, hvalue'⟩ := hk a (hvalue a rfl) s₁ hrecorded.obeys
    exact ⟨hrecorded.trans hmore, hvalue'⟩
  all_goals
    rw [hxs] at hrecorded
    exact ⟨hrecorded, fun a h => by cases h⟩

/-- What is built first is there when the trail begins. -/
theorem records_onHeap {p : Heap → α × Heap} {k : α → Action ε β}
    {t : α → Session → List RecordedCall} (hp : Building P Q p)
    (hk : ∀ a, Q a → (k a).Records P R (t a)) :
    Records P R (Session.onHeap p >>= k) fun s =>
      t (s.onWorld (World.onHeap p)).1 (s.onWorld (World.onHeap p)).2 := by
  intro s hs
  obtain ⟨hvalue, hbuilt⟩ := hs.onHeap hp
  obtain ⟨hrecorded, hresult⟩ := hk _ hvalue _ hbuilt.obeys
  exact ⟨hbuilt.trans hrecorded, hresult⟩

theorem Records.answering {f : α → Answer} {g : ε → Trouble} (hx : x.Records P Q t)
    (hf : ∀ a, Q a → (f a).Obeys P) :
    Records P (Answer.Obeys P) (Session.answering f g x) t := by
  intro s hs
  obtain ⟨hrecorded, hvalue⟩ := hx s hs
  refine ⟨hrecorded, fun answer h => ?_⟩
  rcases hxs : (x s).1 with a | e | p | _
  all_goals
    simp only [Session.answering, hxs] at h
    cases h
  exact hf a (hvalue a hxs)

end Action

variable {P : Nat → Nat → Prop}

namespace Session

/-! ## Loading -/

section Loading

variable {importBy : String → Action ImportError Nat}

theorem silent_loadTest (hi : ∀ name, (importBy name).Silent P fun _ => True) (run : Nat)
    (test : LoadTest) : (loadTest importBy run test).Silent P fun _ => True := by
  cases test with
  | imports name =>
    intro s hs
    have himported := (hi name s hs).1
    refine ⟨?_, fun _ _ => trivial⟩
    simp only [loadTest]
    rcases himport : importBy name s with ⟨a | e | p | _, s₁⟩
    all_goals
      rw [himport] at himported
      exact himported
  | early runs => exact Action.silent_const fun _ _ _ => trivial
  | holds name => exact Action.silent_const fun _ _ _ => trivial

mutual

theorem silent_loadStep (hi : ∀ name, (importBy name).Silent P fun _ => True) (i run : Nat) :
    ∀ step : LoadStep, (loadStep importBy i run step).Silent P fun _ => True
  | .require name => by
    intro s hs
    unfold loadStep
    exact ⟨(hi name s hs).1, fun _ _ => trivial⟩
  | .attempt name => by
    intro s hs
    have himported := (hi name s hs).1
    refine ⟨?_, fun _ _ => trivial⟩
    simp only [loadStep]
    rcases himport : importBy name s with ⟨a | e | p | _, s₁⟩
    all_goals
      rw [himport] at himported
      exact himported
  | .fail text => by
    unfold loadStep
    exact Action.silent_const fun _ _ _ => trivial
  | .branch test yes no => by
    unfold loadStep
    refine (silent_loadTest hi run test).bind fun b _ => ?_
    cases b with
    | true => exact silent_loadSteps hi i run yes
    | false => exact silent_loadSteps hi i run no
  | .offer b => by
    intro s hs
    unfold loadStep
    obtain ⟨hmodule, hbuilt⟩ := hs.onHeap (Building.blueprint b)
    exact ⟨hbuilt.trans (hbuilt.obeys.setSource i _ (.ready _) hmodule), fun _ _ => trivial⟩
  | .offerLoader name loader => by
    intro s hs
    unfold loadStep
    exact ⟨hs.setSource i name (.deferred loader 0) trivial, fun _ _ => trivial⟩

theorem silent_loadSteps (hi : ∀ name, (importBy name).Silent P fun _ => True) (i run : Nat) :
    ∀ steps : List LoadStep, (loadSteps importBy i run steps).Silent P fun _ => True
  | [] => by
    unfold loadSteps
    exact Action.silent_const fun _ _ _ => trivial
  | step :: rest => by
    unfold loadSteps
    exact (silent_loadStep hi i run step).bind fun _ _ => silent_loadSteps hi i run rest

end

theorem silent_runLoader (hi : ∀ name, (importBy name).Silent P fun _ => True) (i run : Nat)
    (loader : Loader) : (runLoader importBy i run loader).Silent P (Module.Obeys P) := by
  obtain ⟨steps, failures, complaint, finish⟩ := loader
  refine (silent_loadSteps hi i run steps).bind fun _ _ => ?_
  by_cases hfails : run ≤ failures
  · simp only [hfails, if_true]
    exact Action.silent_const fun _ _ h => by cases h
  · simp only [hfails, if_false]
    cases finish with
    | build b => exact Action.silent_onHeap (Building.blueprint b)
    | panic payload => exact Action.silent_const fun _ _ h => by cases h

theorem Obeys.keep {s : Session} (h : s.Obeys P) (i : Nat) (name : String) {m : Module}
    (hm : m.Obeys P) : Recorded P s (s.keep i name m).2 [] := by
  have hadd := h.addModule hm
  exact hadd.trans (hadd.obeys.onImporter i (fun _ himp => himp) fun _ => rfl)

theorem silent_load (hi : ∀ name, (importBy name).Silent P fun _ => True) (i : Nat)
    (name : String) : (load importBy i name).Silent P fun _ => True := by
  intro s hs
  refine ⟨?_, fun _ _ => trivial⟩
  have htake : Recorded P s (s.takeSource i name).2 [] :=
    hs.onImporter i (fun imp himp e he => himp e (List.mem_filter.mp he).1) fun _ => rfl
  have hsource : ∀ source, (s.takeSource i name).1 = some source → source.Obeys P := by
    intro source h
    obtain ⟨imp, himp, hget⟩ := Option.bind_eq_some_iff.mp h
    exact hs.sources imp (Array.mem_of_getElem? himp) _ (Entries.mem_of_find? hget)
  unfold load
  generalize s.takeSource i name = taken at htake hsource
  obtain ⟨source?, s₁⟩ := taken
  cases source? with
  | none => exact htake
  | some source =>
    cases source with
    | ready m => exact htake.trans (htake.obeys.keep i name (hsource _ rfl))
    | deferred loader runs =>
      obtain ⟨hran, hmodule⟩ := silent_runLoader hi i (runs + 1) loader s₁ htake.obeys
      replace hran := htake.trans hran
      dsimp only
      rcases hloader : runLoader importBy i (runs + 1) loader s₁ with ⟨m | e | p | _, s₂⟩
      all_goals rw [hloader] at hran hmodule
      · exact hran.trans (hran.obeys.keep i name (hmodule m rfl))
      · exact hran.trans (hran.obeys.setSource i name (.deferred loader _) trivial)
      · exact hran
      · exact hran

end Loading

theorem silent_importWithin (fuel i : Nat) (name : String) :
    (importWithin fuel i name).Silent P fun _ => True := by
  induction fuel generalizing name with
  | zero => exact Action.silent_const fun _ _ _ => trivial
  | succ fuel ih =>
    refine Action.Silent.bind (Q := fun _ => True) ?_ fun m _ => ?_
    · intro s hs
      dsimp only
      cases s.loaded? i name with
      | none => exact silent_load ih i name s hs
      | some m => exact ⟨hs.refl, fun _ _ => trivial⟩
    · exact (Action.silent_update fun s hs => hs.fireHooks i m).bind fun _ _ =>
        Action.silent_const fun _ _ _ => trivial

theorem silent_importModule (i : Nat) (name : String) :
    (importModule i name).Silent P fun _ => True :=
  fun s hs => silent_importWithin _ i name s hs

end Session

/-! ## Steps -/

theorem Inputs.building_build (inputs : Inputs) :
    Building P (Arguments.Obeys P) inputs.build := by
  intro h hh
  obtain ⟨hpositional, hh⟩ := Building.buildItems inputs.positional h hh
  obtain ⟨hkeywords, hh⟩ := Building.buildNamed inputs.keywords _ hh
  exact ⟨⟨hpositional, hkeywords.ofAssignments⟩, hh⟩

/-- The calls that calling what a module binds records. -/
def Session.bindingTrail (fuel m : Nat) (name : String) (args : Arguments) (s : Session) :
    List RecordedCall :=
  match (s.modules[m]?).bind fun md => md.get? name with
  | some v => (Watch.callValue (Watch.invoke fuel) v args).trail s.world
  | none => []

/-- The calls that a step records. -/
def Step.trail (fuel : Nat) : Step → Session → List RecordedCall
  | .callBinding m name inputs, s =>
    let (args, s) := s.onWorld (World.onHeap inputs.build)
    s.bindingTrail fuel m name args
  | .callVariable name inputs, s =>
    let (args, s) := s.onWorld (World.onHeap inputs.build)
    (Watch.callVariable (Watch.invoke fuel) name args).trail s.world
  | .assign _ x, s => x.trail fuel s
  | _, _ => []

namespace Session

theorem Obeys.run {α : Type} {Q : α → Prop} {x : Host α} {t : Trail} {s : Session}
    (h : s.Obeys P) (hx : Records P Q x t) :
    Recorded P s (s.run x).2 (t s.world) ∧ ∀ a, (s.run x).1 = .ok a → Q a :=
  ⟨h.of_world (hx s.world h.heap).1, (hx s.world h.heap).2⟩

theorem Obeys.callBinding {s : Session} (h : s.Obeys P) (fuel m : Nat) (name : String)
    {args : Arguments} (ha : args.Obeys P) :
    Recorded P s (s.callBinding fuel m name args).2 (s.bindingTrail fuel m name args) ∧
      ∀ v, (s.callBinding fuel m name args).1 = .ok v → v.Obeys P := by
  unfold Session.callBinding bindingTrail
  cases hm : s.modules[m]? with
  | none => exact ⟨h.refl, fun v hv => by cases hv⟩
  | some md =>
    simp only [Option.bind_some]
    cases hv : md.get? name with
    | none => exact ⟨h.refl, fun v hv => by cases hv⟩
    | some v =>
      have hvalue : v.Obeys P := (h.modules md (Array.mem_of_getElem? hm)).get? hv
      exact h.run (watches_callValue (watches_invoke fuel) hvalue ha).records

theorem Obeys.assign {s : Session} (h : s.Obeys P) (name : String) {a : Answer} (ha : a.Obeys P) :
    Recorded P s (s.assign name a) [] := by
  cases a with
  | module m => exact h.refl
  | value v => exact h.of_world (recorded_nothing rfl (h.heap.assign name ha) rfl)

end Session

/-- A step records the calls of its trail, and answers with what obeys the rule. -/
theorem Step.records_run (fuel : Nat) (x : Step) :
    (x.run fuel).Records P (Answer.Obeys P) (x.trail fuel) := by
  induction x with
  | offer i b =>
    have hoffer : Action.Silent P (Answer.Obeys P) (Step.run fuel (.offer i b)) :=
      (Action.silent_onHeap (Building.blueprint b)).bind fun m hm =>
        (Action.silent_update fun s hs => hs.setSource i m.name (.ready m) hm).bind
          fun _ _ => Action.silent_const fun _ _ h => by cases h; trivial
    exact hoffer
  | offerLoader i name loader =>
    have hoffer : Action.Silent P (Answer.Obeys P) (Step.run fuel (.offerLoader i name loader)) :=
      (Action.silent_update fun s hs =>
        hs.setSource i name (.deferred loader 0) trivial).bind
        fun _ _ => Action.silent_const fun _ _ h => by cases h; trivial
    exact hoffer
  | «import» i name =>
    have himport := (Session.silent_importModule (P := P) i name).answering (f := .module)
      (g := .import) fun _ _ => trivial
    exact himport
  | callBinding m name inputs =>
    refine Action.records_onHeap (t := Session.bindingTrail fuel m name) inputs.building_build
      fun args hargs => ?_
    exact Action.Records.answering (fun s hs => hs.callBinding fuel m name hargs) fun _ hv => hv
  | callVariable name inputs =>
    refine Action.records_onHeap
      (t := fun args s => (Watch.callVariable (Watch.invoke fuel) name args).trail s.world)
      inputs.building_build fun args hargs => ?_
    exact Action.Records.answering
      (fun s hs => hs.run (watches_callVariable (watches_invoke fuel) name hargs).records)
      fun _ hv => hv
  | bind target receiver? =>
    refine Action.records_onHeap (t := fun _ _ => []) (Inputs.building_build _) fun args hargs => ?_
    exact Action.Records.answering (fun s hs => hs.run (keeps_bindFirst hargs).records)
      fun _ hv => hv
  | push target item =>
    have hpush : Action.Silent P (Answer.Obeys P) (Step.run fuel (.push target item)) :=
      (Action.silent_onHeap (Building.build target)).bind fun target _ =>
        (Action.silent_onHeap (Building.build item)).bind fun item hitem =>
          (Action.silent_onHeap (Building.push hitem)).bind fun pushed _ =>
            Action.silent_const fun _ _ h => by cases h; trivial
    exact hpush
  | insert key target item =>
    have hinsert : Action.Silent P (Answer.Obeys P) (Step.run fuel (.insert key target item)) :=
      (Action.silent_onHeap (Building.build key)).bind fun key hkey =>
        (Action.silent_onHeap (Building.build target)).bind fun target _ =>
          (Action.silent_onHeap (Building.build item)).bind fun item hitem =>
            (Action.silent_onHeap (Building.insert hkey hitem)).bind fun inserted _ =>
              Action.silent_const fun _ _ h => by cases h; trivial
    exact hinsert
  | fetch m name =>
    intro s hs
    refine ⟨hs.refl, fun a ha => ?_⟩
    cases ha
    refine Value.obeys_getD fun v hv => ?_
    obtain ⟨md, hmd, hv⟩ := Option.bind_eq_some_iff.mp hv
    exact (hs.modules md (Array.mem_of_getElem? hmd)).get? hv
  | make l =>
    have hmake : Action.Silent P (Answer.Obeys P) (Step.run fuel (.make l)) :=
      (Action.silent_onHeap (Building.build l)).bind fun v hv =>
        Action.silent_const fun _ _ h => by cases h; exact hv
    exact hmake
  | assign name x ih =>
    intro s hs
    obtain ⟨hrecorded, hvalue⟩ := ih s hs
    simp only [Step.run, Step.trail, Run.bind_apply]
    rcases hxs : x.run fuel s with ⟨a | e | p | _, s₁⟩
    all_goals rw [hxs] at hrecorded hvalue
    · have hassigned := hrecorded.trans (hrecorded.obeys.assign name (hvalue a rfl))
      rw [List.append_nil] at hassigned
      exact ⟨hassigned, fun b hb => by cases hb; exact hvalue a rfl⟩
    all_goals exact ⟨hrecorded, fun b hb => by cases hb⟩

namespace Session

/-! ## Runs -/

/-- The session after some steps, each with fuel for the calls in it. A step that fails is over. -/
def perform (steps : List (Nat × Step)) (s : Session) : Session :=
  steps.foldl (fun s x => (x.2.run x.1 s).2) s

/-- The calls that some steps record. -/
def trail : List (Nat × Step) → Session → List RecordedCall
  | [], _ => []
  | (fuel, x) :: rest, s => x.trail fuel s ++ trail rest (x.run fuel s).2

/-- Steps record the calls of their trail and nothing else, and keep to the rule. -/
theorem recorded_perform (steps : List (Nat × Step)) {s : Session} (h : s.Obeys P) :
    Recorded P s (s.perform steps) (s.trail steps) := by
  induction steps generalizing s with
  | nil => exact h.refl
  | cons x rest ih =>
    obtain ⟨hfirst, -⟩ := x.2.records_run x.1 s h
    exact hfirst.trans (ih hfirst.obeys)

end Session

end CallSampler
