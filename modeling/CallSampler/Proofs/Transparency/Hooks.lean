import CallSampler.Import
import CallSampler.Proofs.Transparency.Building

/-!
# Instrumenting leaves no trace

A session without instrumentation has no interceptors, no stores and no notices, no instrumentors
and contexts, and no hooks but those that write names down (`Session.bare`). What a context does to
a module when it is offered one does not show there (`unseen_offer`): each wrapped function is bound
where the function was, and nothing else of the module changes. So an import calls its hooks with
the same effect (`fireHooks_bare`), and installing a context has none (`unseen_install`).
-/

namespace CallSampler

/-- Whether a hook belongs to the program rather than to a context. -/
def Hook.observes : Hook → Bool
  | .instrumentation _ => false
  | .observer _ => true

def Source.bare : Source → Source
  | .ready m => .ready m.bare
  | .deferred loader runs => .deferred loader runs

def Importer.bare (imp : Importer) : Importer where
  sources := imp.sources.map fun e => (e.1, e.2.bare)
  loaded := imp.loaded
  hooks := imp.hooks.filter Hook.observes

/-- The session that the program would have without instrumentation. -/
def Session.bare (s : Session) : Session where
  world := s.world.bare
  disk := s.disk
  importers := s.importers.map Importer.bare
  modules := s.modules.map Module.bare
  instrumentors := #[]
  contexts := #[]
  sightings := s.sightings

namespace Session

theorem modules_bare (m : Nat) (s : Session) :
    s.bare.modules[m]? = (s.modules[m]?).map Module.bare := Array.getElem?_map

theorem importers_bare (i : Nat) (s : Session) :
    s.bare.importers[i]? = (s.importers[i]?).map Importer.bare := Array.getElem?_map

variable {s s' s'' : Session}

/-- From `s` to `s'` no object was made, no importer got or lost a source, and what was full stayed
full. -/
structure Kept (s s' : Session) : Prop where
  objects : s'.world.heap.objects = s.world.heap.objects
  sources : s'.importers.map Importer.sources = s.importers.map Importer.sources
  full : s.world.Full → s'.world.Full

theorem Kept.refl (s : Session) : Kept s s := ⟨rfl, rfl, id⟩

theorem Kept.trans (h : Kept s s') (h' : Kept s' s'') : Kept s s'' :=
  ⟨h'.objects.trans h.objects, h'.sources.trans h.sources, h'.full ∘ h.full⟩

/-- From `s` to `s'` nothing happened that shows without instrumentation. -/
structure Unseen (s s' : Session) : Prop extends Kept s s' where
  bare : s'.bare = s.bare

theorem Unseen.refl (s : Session) : Unseen s s := ⟨.refl s, rfl⟩

theorem Unseen.trans (h : Unseen s s') (h' : Unseen s' s'') : Unseen s s'' :=
  ⟨h.toKept.trans h'.toKept, h'.bare.trans h.bare⟩

/-- A notice does not show. -/
theorem unseen_notify (n : Notice) (s : Session) : Unseen s (s.notify n) :=
  ⟨⟨rfl, rfl, fun h => h⟩, rfl⟩

/-! ## Wrapping -/

/-- Making an interceptor does not show. -/
theorem unseen_intercept (label : String) (store : Nat) (f : Callable) (s : Session) :
    Unseen s (s.onWorld (intercept label store f)).2 := ⟨⟨rfl, rfl, fun h => h⟩, rfl⟩

/-- Replacing a module by one that looks the same without interceptors does not show. -/
theorem unseen_onModule {m : Nat} {old md : Module} (hold : s.modules[m]? = some old)
    (h : md.bare = old.bare) : Unseen s (s.onModule m fun _ => md) := by
  refine ⟨⟨rfl, rfl, fun h => h⟩, ?_⟩
  have hmodules : (s.modules.modify m fun _ => md).map Module.bare = s.modules.map Module.bare := by
    apply Array.ext_getElem?
    intro j
    rw [Array.getElem?_map, Array.getElem?_map, Array.getElem?_modify]
    split
    next hj =>
      rw [← hj, hold]
      exact congrArg some h
    next => rfl
  simp only [bare, onModule, hmodules]

theorem assign_eq_ok {m md : Module} {name : String} {v : Value} (h : m.assign name v = .ok md) :
    md = m.bindName name v := by
  unfold Module.assign at h
  split at h
  next => cases h
  next => exact (Except.ok.inj h).symm

/-- Wrapping a function that a module binds does not show. -/
theorem unseen_wrapFunction {store m : Nat} {moduleName name : String} {f : Callable}
    {md : Module} {done : List String × List String} (hm : (s.bare.modules[m]?) = some md.bare)
    (hf : md.get? name = some (.function f)) :
    Unseen s (wrapFunction store m moduleName name f (done, s)).2 := by
  obtain ⟨wrapped, failed⟩ := done
  have hwrapper := unseen_intercept (qualify moduleName name) store f s
  unfold wrapFunction
  dsimp only
  cases hold : (s.onWorld (intercept (qualify moduleName name) store f)).2.modules[m]? with
  | none => exact hwrapper
  | some old =>
    have hbare : old.bare = md.bare := by
      have hmodule : s.modules[m]? = some old := hold
      rw [modules_bare, hmodule] at hm
      exact Option.some.inj hm
    have hget : old.bare.get? name = some (.function f.bare) := by
      rw [hbare, Module.get?_bare, hf]
      rfl
    rw [Module.get?_bare] at hget
    obtain ⟨v, hv, hvf⟩ := Option.map_eq_some_iff.mp hget
    rw [Option.map_some]
    cases hassign : old.assign name
        (.function (s.onWorld (intercept (qualify moduleName name) store f)).1) with
    | error e => exact hwrapper.trans (unseen_notify _ _)
    | ok new =>
      refine hwrapper.trans (unseen_onModule hold ?_)
      rw [assign_eq_ok hassign]
      exact old.bare_bindName hv hvf.symm

theorem wrappable?_eq_some {moduleName : String} {binding : String × Value} {f : Callable}
    (h : wrappable? moduleName binding = some f) : binding.2 = .function f := by
  unfold wrappable? at h
  split at h
  next g hg =>
    split at h
    next => rw [hg, Option.some.inj h]
    next => cases h
  next => cases h

/-- Wrapping what a module binds to a name does not show. -/
theorem unseen_wrapBinding {store m : Nat} {md : Module} (hm : s.bare.modules[m]? = some md.bare)
    {binding : String × Value} (hb : md.get? binding.1 = some binding.2)
    (done : List String × List String) :
    Unseen s (wrapBinding store m md.name (done, s) binding).2 := by
  unfold wrapBinding
  split
  next f hf =>
    rw [wrappable?_eq_some hf] at hb
    exact unseen_wrapFunction hm hb
  next => exact .refl s

/-- Wrapping the functions of a module does not show. -/
theorem unseen_wrapFunctions {store m : Nat} {md : Module} (hm : s.modules[m]? = some md) :
    Unseen s (s.wrapFunctions store m md).2 := by
  have hbindings : ∀ binding ∈ md.bindings, md.get? binding.1 = some binding.2 := by
    intro binding hb
    exact Entries.find?_of_mem (md.ascending.imp fun h => Std.ne_of_lt h) hb
  have hm : s.bare.modules[m]? = some md.bare := by
    rw [modules_bare, hm, Option.map_some]
  suffices hfold : ∀ (bindings : List (String × Value)) (done : List String × List String)
      (s' : Session), (∀ binding ∈ bindings, md.get? binding.1 = some binding.2) → Unseen s s' →
      Unseen s (bindings.foldl (wrapBinding store m md.name) (done, s')).2 from
    hfold md.bindings ([], []) s hbindings (.refl s)
  intro bindings
  induction bindings with
  | nil => exact fun done s' _ h => h
  | cons binding rest ih =>
    intro done s' hb h
    obtain ⟨hfirst, hrest⟩ := List.forall_mem_cons.mp hb
    have hm' : s'.bare.modules[m]? = some md.bare := by
      rw [h.bare]
      exact hm
    exact ih _ _ hrest (h.trans (unseen_wrapBinding hm' hfirst done))

/-! ## Offering -/

theorem unseen_evaluate (i m : Nat) (s : Session) : Unseen s (s.evaluate i m).2 := by
  unfold evaluate
  split
  next inst md hinst hmd =>
    split
    next => exact .refl s
    next =>
      dsimp only
      split
      next => exact ⟨⟨rfl, rfl, fun h => h⟩, rfl⟩
      next =>
        have h : Unseen s (s.wrapFunctions inst.store m md).2 := unseen_wrapFunctions hmd
        exact ⟨⟨h.objects, h.sources, h.full⟩, h.bare⟩
  next => exact .refl s

/-- Offering a module to a context does not show. -/
theorem unseen_offer (c m : Nat) (s : Session) : Unseen s (s.offer c m).2 := by
  unfold offer
  split
  next ctx _ => exact unseen_evaluate ctx.instrumentor m s
  next => exact .refl s

/-! ## Calling hooks -/

/-- An observer writes down the same without instrumentation. -/
theorem fire_observer_bare (m : Nat) (id : String) (s : Session) :
    s.bare.fire m (.observer id) = (s.fire m (.observer id)).bare := by
  unfold fire
  dsimp only
  rw [modules_bare]
  cases s.modules[m]? <;> rfl

theorem kept_fire (m : Nat) (s : Session) (hook : Hook) : Kept s (s.fire m hook) := by
  cases hook with
  | instrumentation c => exact (unseen_offer c m s).toKept
  | observer id =>
    unfold fire
    dsimp only
    split
    next => exact ⟨rfl, rfl, fun h => h⟩
    next => exact .refl s

/-- What hooks do to a module without instrumentation is what the observers among them do. -/
theorem foldl_fire_bare (m : Nat) (hooks : List Hook) (s : Session) :
    (hooks.filter Hook.observes).foldl (fire m) s.bare = (hooks.foldl (fire m) s).bare := by
  induction hooks generalizing s with
  | nil => rfl
  | cons hook rest ih =>
    cases hook with
    | instrumentation c =>
      have hfire : (s.fire m (.instrumentation c)).bare = s.bare := (unseen_offer c m s).bare
      rw [List.filter_cons_of_neg Bool.false_ne_true, List.foldl_cons, ← ih, hfire]
    | observer id =>
      rw [List.filter_cons_of_pos rfl, List.foldl_cons, List.foldl_cons, fire_observer_bare, ih]

/-- Calling the hooks of an importer shows as much as its observers do. -/
theorem fireHooks_bare (i m : Nat) (s : Session) :
    s.bare.fireHooks i m = (s.fireHooks i m).bare := by
  unfold fireHooks
  rw [importers_bare]
  cases s.importers[i]? with
  | none => rfl
  | some imp => exact foldl_fire_bare m imp.hooks s

theorem kept_fireHooks (i m : Nat) (s : Session) : Kept s (s.fireHooks i m) := by
  unfold fireHooks
  split
  next imp _ =>
    have hfold : ∀ (hooks : List Hook) (s : Session), Kept s (hooks.foldl (fire m) s) := by
      intro hooks
      induction hooks with
      | nil => exact fun s => .refl s
      | cons hook rest ih => exact fun s => (kept_fire m s hook).trans (ih _)
    exact hfold imp.hooks s
  next => exact .refl s

/-! ## Installing -/

/-- A change of an importer that something does not look at. -/
theorem map_onImporter {α : Type} {f : Importer → α} {g : Importer → Importer}
    (h : ∀ imp, f (g imp) = f imp) (i : Nat) (s : Session) :
    (s.onImporter i g).importers.map f = s.importers.map f := by
  apply Array.ext_getElem?
  intro j
  rw [onImporter, Array.getElem?_map, Array.getElem?_modify, Array.getElem?_map]
  split
  next =>
    rw [Option.map_map]
    exact congrFun (congrArg Option.map (funext h)) _
  next => rfl

/-- Hooking an importer by a context does not show. -/
theorem unseen_installHook (i c : Nat) (s : Session) :
    Unseen s (s.installHook i (.instrumentation c)).2 := by
  unfold installHook
  split
  next => exact .refl s
  next imp _ =>
    split
    next => exact .refl s
    next =>
      refine ⟨⟨rfl, ?_, fun h => h⟩, ?_⟩
      · have hsources : ∀ imp : Importer,
            ({ imp with hooks := imp.hooks ++ [.instrumentation c] } : Importer).sources =
              imp.sources := fun _ => rfl
        exact map_onImporter hsources i s
      · have hbare : ∀ imp : Importer,
            ({ imp with hooks := imp.hooks ++ [.instrumentation c] } : Importer).bare =
              imp.bare := by
          intro imp
          simp [Importer.bare, Hook.observes]
        have himporters := map_onImporter hbare i s
        rw [bare, himporters]
        rfl

/-- Installing instrumentation does not show. -/
theorem unseen_install (i : Nat) (config : Config) (s : Session) :
    Unseen s (s.install i config).2 := by
  unfold install
  split
  next c _ => exact unseen_notify _ _
  next =>
    have hcontext : Unseen s (s.addContext config).2 :=
      ⟨⟨rfl, rfl, fun h => h.addStore s.disk config.store⟩, rfl⟩
    exact (hcontext.trans (unseen_installHook i _ _)).trans (unseen_notify _ _)

end Session

end CallSampler
