import CallSampler.Proofs.Transparency.Hooks

/-!
# Imports without interceptors

An import ends as it does without instrumentation, with the same module or the same error, and
leaves the session that it would leave (`follows_importModule`). A loader may import other modules
and make new ones available, so the induction is on the fuel of the import; a source weighs the same
without interceptors, so the fuel is the same too. All that loaders build has to be tame.
-/

namespace CallSampler

/-! ## Tame sources -/

/-- The module at the end, if there is one, builds the same with interceptors and without. -/
def Finish.Tame : Finish → Prop
  | .build b => b.Tame
  | .panic _ => True

mutual

/-- Everything that the loader builds or makes available is tame. -/
def Loader.Tame : Loader → Prop
  | .mk steps _ _ finish => Loader.TameSteps steps ∧ finish.Tame

def Loader.TameSteps : List LoadStep → Prop
  | [] => True
  | step :: rest => step.Tame ∧ Loader.TameSteps rest

def LoadStep.Tame : LoadStep → Prop
  | .branch _ yes no => Loader.TameSteps yes ∧ Loader.TameSteps no
  | .offer b => b.Tame
  | .offerLoader _ loader => loader.Tame
  | _ => True

end

def Source.Tame : Source → Prop
  | .ready _ => True
  | .deferred loader _ => loader.Tame

def Importer.Tame (imp : Importer) : Prop := ∀ e ∈ imp.sources, e.2.Tame

theorem Source.size_bare (source : Source) : source.bare.size = source.size := by
  cases source <;> rfl

theorem Importer.weight_bare (imp : Importer) : imp.bare.weight = imp.weight := by
  have hsizes : imp.bare.sources.map (fun e => e.2.size) = imp.sources.map fun e => e.2.size := by
    simp [Importer.bare, Function.comp_def, Source.size_bare]
  rw [Importer.weight, hsizes, Importer.weight]

namespace Importer

variable {imp : Importer}

theorem Tame.set (h : imp.Tame) {source : Source} (hs : source.Tame) (name : String) :
    Tame { imp with sources := Entries.set name source imp.sources } := by
  intro e he
  rcases Entries.mem_put he with hvalue | he
  · rw [hvalue]
    exact hs
  · exact h e he

theorem Tame.erase (h : imp.Tame) (name : String) :
    Tame { imp with sources := Entries.erase name imp.sources } := by
  intro e he
  exact h e (List.mem_filter.mp he).1

theorem bare_set (name : String) (source : Source) (imp : Importer) :
    ({ imp with sources := Entries.set name source imp.sources } : Importer).bare =
      { imp.bare with sources := Entries.set name source.bare imp.bare.sources } := by
  simp only [bare, Entries.set_map_value]

theorem bare_erase (name : String) (imp : Importer) :
    ({ imp with sources := Entries.erase name imp.sources } : Importer).bare =
      { imp.bare with sources := Entries.erase name imp.bare.sources } := by
  simp only [bare, Entries.erase_map_value]

end Importer

namespace Session

variable {s s' : Session}

/-! ## Quiet sessions -/

/-- No object calls functions when it is asked for its attributes, and no loader builds one that
would. -/
structure Quiet (s : Session) : Prop where
  world : s.world.Quiet
  importers : ∀ imp ∈ s.importers, imp.Tame

theorem Quiet.of_kept (hs : s.Quiet) (h : Kept s s') : s'.Quiet := by
  refine ⟨?_, fun imp himp => ?_⟩
  · rw [World.Quiet, Heap.Quiet, h.objects]
    exact hs.world
  · have hmem : imp.sources ∈ s.importers.map Importer.sources := by
      rw [← h.sources]
      exact Array.mem_map_of_mem himp
    obtain ⟨imp', himp', hsources⟩ := Array.mem_map.mp hmem
    rw [Importer.Tame, ← hsources]
    exact hs.importers imp' himp'

theorem Quiet.onImporter (hs : s.Quiet) {g : Importer → Importer}
    (hg : ∀ imp : Importer, imp.Tame → (g imp).Tame) (i : Nat) : (s.onImporter i g).Quiet := by
  refine ⟨hs.world, fun imp himp => ?_⟩
  obtain ⟨j, hj⟩ := Array.mem_iff_getElem?.mp himp
  rw [Session.onImporter, Array.getElem?_modify] at hj
  split at hj
  next =>
    obtain ⟨imp', himp', rfl⟩ := Option.map_eq_some_iff.mp hj
    exact hg imp' (hs.importers imp' (Array.mem_of_getElem? himp'))
  next => exact hs.importers imp (Array.mem_of_getElem? hj)

theorem Quiet.setSource (hs : s.Quiet) (i : Nat) (name : String) {source : Source}
    (ht : source.Tame) : (s.onImporter i fun imp =>
      { imp with sources := Entries.set name source imp.sources }).Quiet :=
  hs.onImporter (fun _ h => h.set ht name) i

theorem Quiet.register (hs : s.Quiet) (i : Nat) (m : Module) : (s.register i m).Quiet :=
  hs.setSource i m.name trivial

theorem Quiet.keep (hs : s.Quiet) (i : Nat) (name : String) (m : Module) :
    (s.keep i name m).2.Quiet := by
  have hadd : (s.addModule m).2.Quiet := ⟨hs.world, hs.importers⟩
  have hloaded : ∀ imp : Importer, imp.Tame → Importer.Tame
      { imp with loaded := Entries.set name (s.addModule m).1 imp.loaded } := fun _ h => h
  exact hadd.onImporter hloaded i

theorem Quiet.tame_of_getElem? (hs : s.Quiet) {i : Nat} {imp : Importer}
    (h : s.importers[i]? = some imp) : imp.Tame :=
  hs.importers imp (Array.mem_of_getElem? h)

theorem bare_onImporter {g g' : Importer → Importer} (h : ∀ imp, (g imp).bare = g' imp.bare)
    (i : Nat) (s : Session) : s.bare.onImporter i g' = (s.onImporter i g).bare := by
  simp only [onImporter, bare, map_modify Importer.bare g g' h]

end Session

/-- A run of a session follows another: the same end, with the session as it is without
instrumentation, unless a count is full that the host would panic over. -/
abbrev Action.Follows {ε α β : Type} (f : α → β) (x : Action ε α) (y : Action ε β) : Prop :=
  Run.Follows Session.bare Session.Quiet (fun s => s.world.Full) f x y

namespace Session

variable {s : Session}

/-! ## Registries -/

theorem bare_register (i : Nat) (m : Module) (s : Session) :
    s.bare.register i m.bare = (s.register i m).bare :=
  bare_onImporter (fun imp => imp.bare_set m.name (.ready m)) i s

theorem bare_registerLoader (i : Nat) (name : String) (loader : Loader) (s : Session) :
    s.bare.registerLoader i name loader = (s.registerLoader i name loader).bare :=
  bare_onImporter (fun imp => imp.bare_set name (.deferred loader 0)) i s

theorem bare_keep (i : Nat) (name : String) (m : Module) (s : Session) :
    s.bare.keep i name m.bare = (s.keep i name m).map id bare := by
  have hmodules : (s.modules.push m).map Module.bare = (s.modules.map Module.bare).push m.bare :=
    Array.map_push
  have hadd : s.bare.addModule m.bare = (s.addModule m).map id bare := by
    simp only [addModule, bare, hmodules, Array.size_map, Prod.map, id]
  have hloaded : (s.addModule m).2.bare.onImporter i
      (fun imp => { imp with loaded := Entries.set name (s.addModule m).1 imp.loaded }) =
      ((s.addModule m).2.onImporter i
        fun imp => { imp with loaded := Entries.set name (s.addModule m).1 imp.loaded }).bare := by
    apply bare_onImporter
    exact fun imp => rfl
  rw [keep, hadd]
  exact congrArg (Prod.mk _) hloaded

theorem bare_takeSource (i : Nat) (name : String) (s : Session) :
    s.bare.takeSource i name = (s.takeSource i name).map (Option.map Source.bare) bare := by
  refine Prod.ext ?_ (bare_onImporter (fun imp => imp.bare_erase name) i s)
  simp only [takeSource, importers_bare, Prod.map]
  cases s.importers[i]? with
  | none => rfl
  | some imp => exact Entries.find?_map_value _ _ _

theorem tame_takeSource (hs : s.Quiet) {i : Nat} {name : String} {source : Source}
    (h : (s.takeSource i name).1 = some source) : source.Tame := by
  obtain ⟨imp, himp, hsource⟩ := Option.bind_eq_some_iff.mp h
  exact hs.tame_of_getElem? himp _ (Entries.mem_of_find? hsource)

theorem loaded?_bare (i : Nat) (name : String) (s : Session) :
    s.bare.loaded? i name = s.loaded? i name := by
  rw [loaded?, loaded?, importers_bare]
  cases s.importers[i]? <;> rfl

/-! ## Loading -/

theorem builds_onWorld {α β : Type} {f : α → β} {p : Heap → α × Heap} {q : Heap → β × Heap}
    (h : Builds f p q) (hs : s.Quiet) :
    s.bare.onWorld (World.onHeap q) = (s.onWorld (World.onHeap p)).map f bare ∧
      (s.onWorld (World.onHeap p)).2.Quiet := by
  obtain ⟨hq, hquiet⟩ := h s.world.heap
  refine ⟨?_, hquiet hs.world, hs.importers⟩
  simp only [onWorld, World.onHeap, bare, World.bare, hq, Prod.map]

section Loading

variable {importBy : String → Action ImportError Nat}

/-- What a loader decides by, where the imports that it makes are transparent. -/
theorem follows_loadTest (hi : ∀ name, Action.Follows id (importBy name) (importBy name))
    (run : Nat) (test : LoadTest) :
    Action.Follows id (loadTest importBy run test) (loadTest importBy run test) := by
  cases test with
  | imports name =>
    intro s hs
    obtain ⟨hy, hgood, hfull⟩ := hi name s hs
    rcases hx : importBy name s with ⟨a | e | p | _, s₁⟩
    all_goals
      rw [hx] at hy hgood hfull
      refine .of_eq (by simp only [loadTest, hx]; rfl) (fun hroom => ?_) hgood hfull
      simp only [loadTest, hy hroom]
      rfl
  | early runs => exact Run.follows_pure _
  | holds name =>
    refine Run.follows_inspect fun s => ?_
    have hscope : s.bare.world.heap.lookup? name = (s.world.heap.lookup? name).map Value.bare :=
      s.world.heap.lookup?_bare name
    rw [hscope]
    cases s.world.heap.lookup? name <;> simp

mutual

/-- One step of a loader, where the imports that it makes are transparent. -/
theorem follows_loadStep (hi : ∀ name, Action.Follows id (importBy name) (importBy name))
    (i run : Nat) : ∀ step : LoadStep, step.Tame →
      Action.Follows id (loadStep importBy i run step) (loadStep importBy i run step)
  | .require name, _ => by
    unfold loadStep
    refine Run.follows_outcome (p := fun o => (o.map fun _ => ()).mapError LoadError.import)
      (q := fun o => (o.map fun _ => ()).mapError LoadError.import) (hi name) fun o => ?_
    cases o <;> rfl
  | .attempt name, _ => by
    intro s hs
    obtain ⟨hy, hgood, hfull⟩ := hi name s hs
    rcases hx : importBy name s with ⟨a | e | p | _, s₁⟩
    all_goals
      rw [hx] at hy hgood hfull
      refine .of_eq (by simp only [loadStep, hx]; rfl) (fun hroom => ?_) hgood hfull
      simp only [loadStep, hy hroom]
      rfl
  | .fail text, _ => by
    unfold loadStep
    exact Run.follows_fail _
  | .branch test yes no, ht => by
    unfold loadStep
    unfold LoadStep.Tame at ht
    refine Run.follows_bind (follows_loadTest hi run test) fun b => ?_
    cases b with
    | true => exact follows_loadSteps hi i run yes ht.1
    | false => exact follows_loadSteps hi i run no ht.2
  | .offer b, ht => by
    unfold loadStep
    unfold LoadStep.Tame at ht
    refine Run.follows_update (fun s hs => ?_) fun _ h => by exact h
    obtain ⟨hbuild, hquiet⟩ := builds_onWorld (Blueprint.builds_build ht) hs
    refine ⟨?_, hquiet.register i _⟩
    rw [build, hbuild]
    exact bare_register i _ _
  | .offerLoader name loader, ht => by
    unfold loadStep
    unfold LoadStep.Tame at ht
    exact Run.follows_update (fun s hs =>
      ⟨bare_registerLoader i name loader s, hs.setSource i name ht⟩) fun _ h => h

theorem follows_loadSteps (hi : ∀ name, Action.Follows id (importBy name) (importBy name))
    (i run : Nat) : ∀ steps : List LoadStep, Loader.TameSteps steps →
      Action.Follows id (loadSteps importBy i run steps) (loadSteps importBy i run steps)
  | [], _ => by
    unfold loadSteps
    exact Run.follows_pure ()
  | step :: rest, ht => by
    unfold loadSteps
    unfold Loader.TameSteps at ht
    exact Run.follows_bind (follows_loadStep hi i run step ht.1) fun _ =>
      follows_loadSteps hi i run rest ht.2

end

theorem follows_runLoader (hi : ∀ name, Action.Follows id (importBy name) (importBy name))
    (i run : Nat) {loader : Loader} (ht : loader.Tame) :
    Action.Follows Module.bare (runLoader importBy i run loader)
      (runLoader importBy i run loader) := by
  obtain ⟨steps, failures, complaint, finish⟩ := loader
  refine Run.follows_bind (follows_loadSteps hi i run steps ht.1) fun _ => ?_
  by_cases hfails : run ≤ failures
  · simp only [hfails, if_true]
    exact Run.follows_fail _
  · simp only [hfails, if_false]
    cases finish with
    | build b =>
      exact Run.follows_step (fun s hs => builds_onWorld (Blueprint.builds_build ht.2) hs)
        fun _ h => h
    | panic payload => exact Run.follows_panic payload

/-- Loading a module, where the imports that its loader makes are transparent. -/
theorem follows_load (hi : ∀ name, Action.Follows id (importBy name) (importBy name)) (i : Nat)
    (name : String) : Action.Follows id (load importBy i name) (load importBy i name) := by
  intro s hs
  have htake := bare_takeSource i name s
  have hquiet : (s.takeSource i name).2.Quiet := hs.onImporter (fun imp himp => himp.erase name) i
  have hfull : s.world.Full → (s.takeSource i name).2.world.Full := fun h => h
  have htame := @tame_takeSource s hs i name
  rcases hsource : s.takeSource i name with ⟨source?, s₁⟩
  rw [hsource] at htake hquiet hfull htame
  have htake : s.bare.takeSource i name = (source?.map Source.bare, s₁.bare) := htake
  cases source? with
  | none =>
    refine .of_eq (by simp only [load, hsource]; rfl) (fun _ => ?_) hquiet hfull
    simp only [load, htake, Option.map_none]
    rfl
  | some source =>
    have htame : source.Tame := htame rfl
    cases source with
    | ready m =>
      refine .of_eq (by simp only [load, hsource]; rfl) (fun _ => ?_) (hquiet.keep i name m) hfull
      simp only [load, htake, Option.map_some, Source.bare, bare_keep]
      rfl
    | deferred loader runs =>
      obtain ⟨hy, hgood, hkept⟩ := follows_runLoader hi i (runs + 1) htame s₁ hquiet
      rcases hx : runLoader importBy i (runs + 1) loader s₁ with ⟨m | e | p | _, s₂⟩
      all_goals rw [hx] at hy hgood hkept
      · refine .of_eq (by simp only [load, hsource, hx]; rfl) (fun hroom => ?_)
          (hgood.keep i name m) (hkept ∘ hfull)
        simp only [load, htake, Option.map_some, Source.bare, hy hroom, Outcome.map, bare_keep]
        rfl
      · have htame : (Source.deferred loader (runs + 1)).Tame := htame
        refine .of_eq (by simp only [load, hsource, hx]; rfl) (fun hroom => ?_)
          (hgood.setSource i name htame) (hkept ∘ hfull)
        simp only [load, htake, Option.map_some, Source.bare, hy hroom]
        exact congrArg (Prod.mk _) (bare_onImporter
          (fun imp => imp.bare_set name (.deferred loader (runs + 1))) i s₂)
      all_goals
        refine .of_eq (by simp only [load, hsource, hx]; rfl) (fun hroom => ?_) hgood
          (hkept ∘ hfull)
        simp only [load, htake, Option.map_some, Source.bare, hy hroom]
        rfl

end Loading

/-! ## Importing -/

theorem follows_importWithin (fuel i : Nat) (name : String) :
    Action.Follows id (importWithin fuel i name) (importWithin fuel i name) := by
  induction fuel generalizing name with
  | zero => exact Run.follows_exhaust
  | succ fuel ih =>
    refine Run.follows_bind (f := id) ?_ fun m => ?_
    · intro s hs
      cases hm : s.loaded? i name with
      | none => exact (follows_load ih i name s hs).congr (by rw [hm]) (by rw [loaded?_bare, hm])
      | some m => exact .still hs (by rw [hm]) (by rw [loaded?_bare, hm]; rfl)
    · refine Run.follows_bind (f := id) ?_ fun _ => Run.follows_pure m
      exact Run.follows_update (fun s hs =>
        ⟨fireHooks_bare i m s, hs.of_kept (kept_fireHooks i m s)⟩)
        fun s => (kept_fireHooks i m s).full

/-- An import ends the same with instrumentation and without. -/
theorem follows_importModule (i : Nat) (name : String) :
    Action.Follows id (importModule i name) (importModule i name) := by
  intro s hs
  have hweight : (s.bare.importers[i]?).map Importer.weight =
      (s.importers[i]?).map Importer.weight := by
    rw [importers_bare]
    cases s.importers[i]? with
    | none => rfl
    | some imp => exact congrArg some imp.weight_bare
  refine (follows_importWithin _ i name s hs).congr rfl ?_
  rw [importModule, hweight]

end Session

end CallSampler
