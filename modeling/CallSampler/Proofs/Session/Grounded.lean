import CallSampler.Proofs.Session.Course
import CallSampler.Proofs.Session.Recording

/-!
# Sessions in which every interceptor has a store

A session is grounded if its interceptors record to stores that there are and its instrumentors make
no others (`Session.Grounded`). An empty session is, and adding importers, steps of a host program,
installations and shutdowns keep it so. What is grounded knows nothing of a store to come: right
after an installation, only what the new context wraps can record to the new store
(`Grounded.install`).
-/

namespace CallSampler

namespace Session

variable {P : Nat → Nat → Prop} {s : Session} {i : Nat} {config : Config}

/-- Every interceptor of a session records to a store that there is, and so will those that its
instrumentors make. -/
def Grounded (s : Session) : Prop := s.Obeys fun store _ => store < s.world.stores.size

theorem grounded_empty (disk : Disk) : (empty disk).Grounded := obeys_empty disk

theorem Grounded.addImporter (h : s.Grounded) : s.addImporter.2.Grounded := by
  refine ⟨h.heap, h.modules, fun imp himp => ?_, h.instrumentors⟩
  rcases Array.mem_push.mp himp with hold | rfl
  · exact h.sources imp hold
  · exact fun e he => nomatch he

/-- A new context records to a new store, at the depth limit of its settings. -/
theorem Grounded.addContext (h : s.Grounded)
    (hP : ∀ store depth, store < s.world.stores.size → P store depth)
    (hnew : P s.world.stores.size config.maxDepth) : (s.addContext config).2.Obeys P where
  heap := h.heap.imp hP
  modules := fun m hm => (h.modules m hm).imp hP
  sources := by
    intro imp himp e he
    have hsource := h.sources imp himp e he
    cases hkind : e.2 with
    | ready m =>
      rw [hkind] at hsource
      exact ObeyNamed.imp hP hsource
    | deferred loader runs => trivial
  instrumentors := by
    intro inst hinst
    rcases Array.mem_push.mp hinst with hold | rfl
    · exact hP _ _ (h.instrumentors inst hold)
    · have hdepth : (s.addContext config).2.world.depthOf s.world.stores.size =
          config.maxDepth := by
        show (((s.world.stores.push (config.store.load s.disk).1)[s.world.stores.size]?).map
          Store.maxDepth).getD 0 = config.maxDepth
        rw [Array.getElem?_push_size]
        exact Store.maxDepth_load
      show P s.world.stores.size ((s.addContext config).2.world.depthOf s.world.stores.size)
      rw [hdepth]
      exact hnew

theorem Obeys.installHook (h : s.Obeys P) (i : Nat) (hook : Hook) :
    (s.installHook i hook).2.Obeys P := by
  unfold Session.installHook
  split
  next => exact h
  next =>
    split
    next => exact h
    next =>
      let hooked (imp : Importer) : Importer := { imp with hooks := imp.hooks ++ [hook] }
      have hsources := forall_mem_modify h.sources i (f := hooked) fun _ himp => himp
      exact ⟨h.heap, h.modules, hsources, h.instrumentors⟩

theorem Grounded.install (h : s.Grounded)
    (hP : ∀ store depth, store < s.world.stores.size → P store depth)
    (hnew : P s.world.stores.size config.maxDepth) (hnone : s.installed? i = none) :
    (s.install i config).2.Obeys P := by
  have hadded := h.addContext hP hnew
  rw [install_of_none hnone]
  exact ((hadded.installHook i _).notify _).obeys

/-- Steps of a host program make no store. -/
theorem Grounded.perform (h : s.Grounded) (steps : List (Nat × Step)) :
    (s.perform steps).Grounded := by
  have hrecorded := recorded_perform steps h
  have hsize : (s.perform steps).world.stores.size = s.world.stores.size := by
    have hiff : ∀ k, (s.perform steps).world.stores.size ≤ k ↔ s.world.stores.size ≤ k := by
      intro k
      rw [← Array.getElem?_eq_none_iff, ← Array.getElem?_eq_none_iff, hrecorded.world.stores k,
        Option.map_eq_none_iff]
    exact Nat.le_antisymm ((hiff _).mpr (Nat.le_refl _)) ((hiff _).mp (Nat.le_refl _))
  unfold Grounded
  rw [hsize]
  exact hrecorded.obeys

theorem Grounded.saveStore (h : s.Grounded) (store : Nat) : (s.saveStore store).Grounded := by
  have hsaved : (s.trySave store).2.Grounded := by
    unfold trySave
    split <;> exact ⟨h.heap, h.modules, h.sources, h.instrumentors⟩
  unfold Session.saveStore
  split
  next heq =>
    rw [heq] at hsaved
    exact hsaved
  next heq =>
    rw [heq] at hsaved
    exact (hsaved.notify _).obeys

/-- Another context may have been shut down before. -/
theorem Grounded.shutDown (h : s.Grounded) (c : Nat) : (s.shutDown c).2.Grounded := by
  have hclosed : (s.close c).Grounded := ⟨h.heap, h.modules, h.sources, h.instrumentors⟩
  unfold Session.shutDown
  split
  next => exact h
  next ctx _ =>
    split
    next => exact h
    next => exact hclosed.saveStore ctx.store

/-- What an installation leaves where nothing was installed, apart from the hook. -/
structure Installed (config : Config) (s : Session) (installed : Guard × Session) : Prop where
  guard : installed.1 = { context := s.contexts.size, persists := true }
  stores : installed.2.world.stores = s.world.stores.push (config.store.load s.disk).1
  disk : installed.2.disk = s.disk
  contexts : installed.2.contexts = s.contexts.push
    { config
      store := s.world.stores.size
      instrumentor := s.instrumentors.size
      shutDown := false }

/-- Hooking an importer touches neither the disk nor a store nor a context. -/
theorem installHook_rest (i : Nat) (hook : Hook) (s : Session) :
    (s.installHook i hook).2.world = s.world ∧ (s.installHook i hook).2.disk = s.disk ∧
      (s.installHook i hook).2.contexts = s.contexts := by
  unfold installHook
  split
  next => exact ⟨rfl, rfl, rfl⟩
  next => split <;> exact ⟨rfl, rfl, rfl⟩

theorem installed_install (hnone : s.installed? i = none) :
    Installed config s (s.install i config) := by
  obtain ⟨hworld, hdisk, hcontexts⟩ :=
    installHook_rest i (.instrumentation s.contexts.size) (s.addContext config).2
  rw [install_of_none hnone]
  exact
    { guard := rfl
      stores := by simp only [notify, hworld]; rfl
      disk := by simp only [notify, hdisk]; rfl
      contexts := by simp only [notify, hcontexts]; rfl }

/-- Another context may have been installed before. -/
theorem Grounded.installed (h : s.Grounded) (hnone : s.installed? i = none) :
    (s.install i config).2.Grounded := by
  have hsize : (s.install i config).2.world.stores.size = s.world.stores.size + 1 := by
    rw [(installed_install hnone).stores, Array.size_push]
  unfold Grounded
  rw [hsize]
  exact h.install (fun _ _ hlt => Nat.lt_succ_of_lt hlt) (Nat.lt_succ_self _) hnone

end Session

end CallSampler
