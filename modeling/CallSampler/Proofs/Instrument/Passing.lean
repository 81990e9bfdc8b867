import CallSampler.Proofs.Import.Registry
import CallSampler.Proofs.Instrument.Offers
import CallSampler.Proofs.Transparency.Programs

/-!
# What a run offers

The offers that a run makes to an instrumentor are those that hooks make at the ends of imports; all
else that happens passes the decisions by (`Aside`). What one step of a loader does carries over to
an import by induction on its fuel (`passes_importWithin`), and so to a step of a host program
(`Step.passage_run`). Hooks and contexts stay the same, and modules keep their names, so that every
offer meets the same instrumentor.
-/

namespace CallSampler

namespace Session

variable {ι m : Nat} {s s' : Session} {name : String}

/-! ## What passes the decisions by -/

/-- Every module that an importer has loaded is there. -/
def Housed (s : Session) : Prop :=
  ∀ i name m, s.loaded? i name = some m → (s.nameOf? m).isSome

/-- What hooks and modules look like to an instrumentor stays as it is: hooks and contexts are the
same, and modules keep their names. -/
structure Steady (s s' : Session) : Prop where
  hooks : ∀ i, s'.hooks i = s.hooks i
  contexts : s'.contexts = s.contexts
  names : ∀ m name, s.nameOf? m = some name → s'.nameOf? m = some name
  housed : s.Housed → s'.Housed

theorem Steady.refl (s : Session) : Steady s s := ⟨fun _ => rfl, rfl, fun _ _ => id, id⟩

theorem Steady.trans {s'' : Session} (h : Steady s s') (h' : Steady s' s'') : Steady s s'' where
  hooks := fun i => (h'.hooks i).trans (h.hooks i)
  contexts := h'.contexts.trans h.contexts
  names := fun m name hm => h'.names m name (h.names m name hm)
  housed := fun hs => h'.housed (h.housed hs)

/-- Nothing is decided. -/
structure Aside (s s' : Session) : Prop extends Steady s s' where
  instrumentors : s'.instrumentors = s.instrumentors

theorem Aside.refl (s : Session) : Aside s s := ⟨.refl s, rfl⟩

theorem Aside.trans {s'' : Session} (h : Aside s s') (h' : Aside s' s'') : Aside s s'' :=
  ⟨h.toSteady.trans h'.toSteady, h'.instrumentors.trans h.instrumentors⟩

theorem Aside.processed (h : Aside s s') (ι : Nat) : s'.processed ι = s.processed ι := by
  rw [Session.processed, h.instrumentors, Session.processed]

theorem aside_world (w : World) (s : Session) : Aside s { s with world := w } where
  hooks := fun _ => rfl
  contexts := rfl
  names := fun _ _ => id
  housed := id
  instrumentors := rfl

/-- An importer may change its sources. -/
theorem aside_onImporter {f : Importer → Importer} (hhooks : ∀ imp, (f imp).hooks = imp.hooks)
    (hloaded : ∀ imp, (f imp).loaded = imp.loaded) (i : Nat) (s : Session) :
    Aside s (s.onImporter i f) := by
  refine ⟨⟨fun j => hooks_onImporter hhooks i j s, rfl, fun _ _ => id,
    fun hs j name m hm => hs j name m ?_⟩, rfl⟩
  rw [← hm, loaded?_onImporter hloaded]

theorem aside_dropSource (i : Nat) (name : String) (s : Session) :
    Aside s (s.dropSource i name) := by
  unfold dropSource
  apply aside_onImporter
  · exact fun _ => rfl
  · exact fun _ => rfl

theorem aside_putSource (i : Nat) (name : String) (source : Source) (s : Session) :
    Aside s (s.putSource i name source) := by
  unfold putSource
  apply aside_onImporter
  · exact fun _ => rfl
  · exact fun _ => rfl

theorem nameOf?_addModule (md : Module) (m : Nat) (s : Session) :
    (s.addModule md).2.nameOf? m =
      if m = s.modules.size then some md.name else s.nameOf? m := by
  rw [nameOf?, nameOf?, addModule, Array.getElem?_push]
  split <;> rfl

theorem aside_addModule (md : Module) (s : Session) : Aside s (s.addModule md).2 := by
  have hnames : ∀ m name, s.nameOf? m = some name → (s.addModule md).2.nameOf? m = some name := by
    intro m name hm
    have hne : m ≠ s.modules.size := by
      rintro rfl
      rw [nameOf?, Array.getElem?_eq_none (Nat.le_refl _)] at hm
      cases hm
    rw [nameOf?_addModule, if_neg hne, hm]
  refine ⟨⟨fun _ => rfl, rfl, hnames, fun hs i name m hm => ?_⟩, rfl⟩
  obtain ⟨k, hk⟩ := Option.isSome_iff_exists.mp (hs i name m hm)
  rw [hnames m k hk, Option.isSome_some]

/-- A module that is kept is there. -/
theorem aside_keep (i : Nat) (name : String) (md : Module) (s : Session) :
    Aside s (s.keep i name md).2 ∧ ((s.keep i name md).2.nameOf? (s.keep i name md).1).isSome := by
  have hadd := aside_addModule md s
  let kept (imp : Importer) : Importer :=
    { imp with loaded := Entries.set name s.modules.size imp.loaded }
  have hnew : ((s.addModule md).2.nameOf? s.modules.size).isSome := by
    rw [nameOf?_addModule, if_pos rfl, Option.isSome_some]
  have hfound : ∀ j, (s.keep i name md).2.importers[j]? =
      if i = j then (s.importers[j]?).map kept else s.importers[j]? := fun j =>
    importers_onImporter i j kept (s.addModule md).2
  refine ⟨⟨⟨fun j => hooks_onImporter (f := kept) (fun _ => rfl) i j _, rfl, hadd.names,
    fun hs j k m hm => ?_⟩, rfl⟩, hnew⟩
  show ((s.addModule md).2.nameOf? m).isSome
  have hold : s.loaded? j k = some m → ((s.addModule md).2.nameOf? m).isSome :=
    fun hm => hadd.housed hs j k m hm
  rw [loaded?, hfound] at hm
  split at hm
  next =>
    obtain ⟨imp, himp, hget⟩ := Option.bind_eq_some_iff.mp hm
    obtain ⟨imp', himp', rfl⟩ := Option.map_eq_some_iff.mp himp
    have hget : Entries.get? k (Entries.set name s.modules.size imp'.loaded) = some m := hget
    rw [Entries.get?, Entries.set, Entries.find?_put] at hget
    split at hget
    next => exact Option.some.inj hget ▸ hnew
    next => exact hold (by rw [loaded?, himp']; exact hget)
  next => exact hold hm

theorem steady_fire (m : Nat) (s : Session) (hook : Hook) : Steady s (s.fire m hook) := by
  have himporters := importers_fire m s hook
  have hnames := fun k => nameOf?_fire k m s hook
  refine ⟨fun i => ?_, ?_, fun k name hk => (hnames k).trans hk, fun hs i name k hk => ?_⟩
  · rw [Session.hooks, himporters, Session.hooks]
  · cases hook with
    | instrumentation c =>
      rw [fire, offer]
      split
      next ctx _ => exact (evaluate_rest ctx.instrumentor m s).2.2.2.1
      next => rfl
    | observer id =>
      rw [fire]
      split <;> rfl
  · rw [hnames]
    refine hs i name k ?_
    rw [loaded?, ← himporters]
    exact hk

theorem isSome_fire (h : (s.instrumentors[ι]?).isSome) (m : Nat) (hook : Hook) :
    ((s.fire m hook).instrumentors[ι]?).isSome := by
  cases hook with
  | instrumentation c =>
    rw [fire, offer]
    split
    next => exact isSome_evaluate h
    next => exact h
  | observer id =>
    rw [fire]
    split <;> exact h

end Session

/-! ## Passages -/

/-- A part of a run, with the imports that end in it and the offers that are made to an
instrumentor. -/
structure Passage (ι : Nat) (s s' : Session) (ends : List Ending) (offers : List Offer) : Prop where
  steady : s.Steady s'
  there : (s'.instrumentors[ι]?).isSome
  decides : Decides ι (s.processed ι) offers (s'.processed ι)
  found : ∀ e ∈ ends, s.Steady e.found ∧
    (s.Housed → ∀ m, e.result = .ok m → (e.found.nameOf? m).isSome)

namespace Passage

variable {ι : Nat} {s s' s'' : Session} {ends ends' : List Ending} {offers offers' : List Offer}

theorem of_aside (hs : (s.instrumentors[ι]?).isSome) (h : s.Aside s') : Passage ι s s' [] [] where
  steady := h.toSteady
  there := h.instrumentors ▸ hs
  decides := h.processed ι ▸ .nothing _
  found := fun _ he => nomatch he

theorem trans (h : Passage ι s s' ends offers) (h' : Passage ι s' s'' ends' offers') :
    Passage ι s s'' (ends ++ ends') (offers ++ offers') where
  steady := h.steady.trans h'.steady
  there := h'.there
  decides := h.decides.trans h'.decides
  found := by
    intro e he
    rcases List.mem_append.mp he with he | he
    · exact h.found e he
    · obtain ⟨hsteady, hmodule⟩ := h'.found e he
      exact ⟨h.steady.trans hsteady, fun hs => hmodule (h.steady.housed hs)⟩

theorem then_aside (h : Passage ι s s' ends offers) (h' : s'.Aside s'') :
    Passage ι s s'' ends offers := by
  have hall := h.trans (.of_aside h.there h')
  rwa [List.append_nil, List.append_nil] at hall

/-- One more import that ends. -/
theorem noting (h : Passage ι s s' ends offers) (e : Ending) (hsteady : s.Steady e.found)
    (hmodule : s.Housed → ∀ m, e.result = .ok m → (e.found.nameOf? m).isSome) :
    Passage ι s s' (ends ++ [e]) offers :=
  { h with
    found := by
      intro e' he'
      rcases List.mem_append.mp he' with he' | he'
      · exact h.found e' he'
      · rw [List.mem_singleton.mp he']
        exact ⟨hsteady, hmodule⟩ }

/-- Hooks make their offers in their turn. -/
theorem hooks (hs : (s.instrumentors[ι]?).isSome) (m : Nat) (hooks : List Hook) :
    Passage ι s (hooks.foldl (Session.fire m) s) [] (Session.hooksOffers ι m hooks s) := by
  induction hooks generalizing s with
  | nil => exact .of_aside hs (.refl s)
  | cons hook rest ih =>
    have hfirst : Passage ι s (s.fire m hook) [] (s.hookOffers ι m hook) :=
      ⟨Session.steady_fire m s hook, Session.isSome_fire hs m hook, Session.decides_fire hs m hook,
        fun _ he => nomatch he⟩
    exact hfirst.trans (ih hfirst.there)

end Passage

/-- Whatever an action does about an instrumentor is in the imports that it logs. -/
def Action.Passes {ε α : Type} (ι i : Nat) (x : Action ε α) (log : Log) : Prop :=
  ∀ s : Session, (s.instrumentors[ι]?).isSome →
    Passage ι s (x s).2 (log s) ((log s).flatMap (Ending.offers ι i))

namespace Session

variable {ε ε' α β : Type} {ι i : Nat}

open CallSampler.Action

theorem passes_aside {x : Action ε α} (h : ∀ s, Aside s (x s).2) : Passes ι i x fun _ => [] :=
  fun s hs => .of_aside hs (h s)

theorem passes_followed {x : Action ε α} {log : Log} {k : α → Action ε β} {next : α → Log}
    (hx : Passes ι i x log) (hk : ∀ a, Passes ι i (k a) (next a)) :
    Passes ι i (x >>= k) (.followed x log next) := by
  intro s hs
  have hfirst := hx s hs
  rw [Run.bind_apply, Log.followed]
  rcases hxs : x s with ⟨a | e | p | _, t⟩ <;> rw [hxs] at hfirst
  · have hall := hfirst.trans (hk a t hfirst.there)
    rwa [← List.flatMap_append] at hall
  all_goals rwa [List.append_nil]

theorem passes_answering {x : Action ε α} {y : Action ε' β} {log : Log} (hx : Passes ι i x log)
    (h : ∀ s, (y s).2 = (x s).2) : Passes ι i y log :=
  fun s hs => h s ▸ hx s hs

section Loading

variable {importBy : String → Action ImportError Nat} {log : String → Log}

theorem passes_loadTest (hi : ∀ name, Passes ι i (importBy name) (log name)) (run : Nat)
    (test : LoadTest) : Passes ι i (loadTest importBy run test) (.ofTest log test) := by
  cases test with
  | imports name =>
    refine passes_answering (hi name) fun s => ?_
    simp only [loadTest]
    rcases importBy name s with ⟨_ | _ | _ | _, t⟩ <;> rfl
  | early runs => exact passes_aside fun s => .refl s
  | holds name => exact passes_aside fun s => .refl s

mutual

theorem passes_loadStep (hi : ∀ name, Passes ι i (importBy name) (log name)) (run : Nat) :
    ∀ step : LoadStep,
      Passes ι i (loadStep importBy i run step) (.ofStep importBy log i run step)
  | .require name => by
    rw [loadStep, Log.ofStep]
    exact passes_answering (hi name) fun s => rfl
  | .attempt name => by
    rw [Log.ofStep]
    refine passes_answering (hi name) fun s => ?_
    simp only [loadStep]
    rcases importBy name s with ⟨_ | _ | _ | _, t⟩ <;> rfl
  | .fail text => by
    rw [loadStep, Log.ofStep]
    exact passes_aside fun s => .refl s
  | .branch test yes no => by
    rw [loadStep, Log.ofStep]
    refine passes_followed (passes_loadTest hi run test) fun b => ?_
    cases b with
    | true => exact passes_loadSteps hi run yes
    | false => exact passes_loadSteps hi run no
  | .offer b => by
    rw [loadStep, Log.ofStep]
    exact passes_aside fun s => (aside_world _ s).trans (aside_putSource i _ _ (s.build b).2)
  | .offerLoader name loader => by
    rw [loadStep, Log.ofStep]
    exact passes_aside fun s => aside_putSource i name _ s

theorem passes_loadSteps (hi : ∀ name, Passes ι i (importBy name) (log name)) (run : Nat) :
    ∀ steps : List LoadStep,
      Passes ι i (loadSteps importBy i run steps) (.ofSteps importBy log i run steps)
  | [] => by
    rw [loadSteps, Log.ofSteps]
    exact passes_aside fun s => .refl s
  | step :: rest => by
    rw [loadSteps, Log.ofSteps]
    exact passes_followed (passes_loadStep hi run step) fun _ => passes_loadSteps hi run rest

end

theorem passes_runLoader (hi : ∀ name, Passes ι i (importBy name) (log name)) (run : Nat)
    (loader : Loader) :
    Passes ι i (runLoader importBy i run loader) (.ofLoader importBy log i run loader) := by
  obtain ⟨steps, failures, complaint, finish⟩ := loader
  intro s hs
  have hsteps := passes_loadSteps hi run steps s hs
  simp only [runLoader, Log.ofLoader, Run.bind_apply]
  rcases hrun : loadSteps importBy i run steps s with ⟨a | e | p | _, t⟩ <;> rw [hrun] at hsteps
  · by_cases hfails : run ≤ failures
    · simp only [hfails, if_true]
      exact hsteps
    · simp only [hfails, if_false]
      cases finish with
      | build b => exact hsteps.then_aside (aside_world _ t)
      | panic payload => exact hsteps
  all_goals exact hsteps

theorem passes_find (hi : ∀ name, Passes ι i (importBy name) (log name)) (name : String) :
    Passes ι i (find importBy i name) (.ofFind importBy log i name) := by
  intro s hs
  have htaken : Aside s (s.takeSource i name).2 := aside_dropSource i name s
  unfold find Log.ofFind
  cases s.loaded? i name with
  | some m => exact .of_aside hs (.refl s)
  | none =>
    unfold load
    generalize s.takeSource i name = taken at htaken
    obtain ⟨source?, t⟩ := taken
    cases source? with
    | none => exact .of_aside hs htaken
    | some source =>
      cases source with
      | ready md => exact .of_aside hs (htaken.trans (aside_keep i name md t).1)
      | deferred loader runs =>
        have hbefore := Passage.of_aside hs htaken
        have hloader := hbefore.trans (passes_runLoader hi (runs + 1) loader t hbefore.there)
        rw [List.nil_append, List.nil_append] at hloader
        dsimp only
        rcases hrun : runLoader importBy i (runs + 1) loader t with ⟨md | cause | p | _, u⟩ <;>
          rw [hrun] at hloader
        · exact hloader.then_aside (aside_keep i name md u).1
        · exact hloader.then_aside (aside_putSource i name _ u)
        · exact hloader
        · exact hloader

end Loading

/-- The module that is found is there. -/
theorem isSome_of_find {importBy : String → Action ImportError Nat} {name : String} {m : Nat}
    {s t : Session} (h : find importBy i name s = (.ok m, t)) (hs : s.Housed) :
    (t.nameOf? m).isSome := by
  unfold find at h
  cases hloaded : s.loaded? i name with
  | some m' =>
    rw [hloaded] at h
    cases h
    exact hs i name m hloaded
  | none =>
    simp only [hloaded, load] at h
    split at h
    next => cases h
    next md u _ =>
      cases h
      exact (aside_keep i name md u).2
    next loader runs u _ =>
      split at h
      next md u _ =>
        cases h
        exact (aside_keep i name md u).2
      all_goals cases h

/-- All offers of an import are made at the ends of imports, by induction on the fuel. -/
theorem passes_importWithin (ι i fuel : Nat) (name : String) :
    Passes ι i (importWithin fuel i name) (Log.ofImport fuel i name) := by
  induction fuel generalizing name with
  | zero => exact passes_aside fun s => .refl s
  | succ fuel ih =>
    intro s hs
    have hsearch := passes_find ih name s hs
    rw [importWithin_succ, Log.ofImport_succ]
    generalize Log.ofFind (importWithin fuel i) (Log.ofImport fuel i) i name s = inner at hsearch ⊢
    rcases hfind : find (importWithin fuel i) i name s with ⟨m | cause | p | _, t⟩ <;>
      rw [hfind] at hsearch
    · have hfired := hsearch.trans (.hooks hsearch.there m (t.hooks i))
      rw [← fireHooks_eq, List.append_nil] at hfired
      have hnoted := hfired.noting ⟨name, s, .ok m, t, t.fireHooks i m⟩ hsearch.steady
        fun hs m' hm' => by cases hm'; exact isSome_of_find hfind hs
      show Passage ι s _ (inner ++ [_]) ((inner ++ [_]).flatMap (Ending.offers ι i))
      rw [List.flatMap_append, List.flatMap_singleton]
      exact hnoted
    · have hnoted := hsearch.noting ⟨name, s, .error cause, t, t⟩ hsearch.steady
        fun _ _ hm => nomatch hm
      show Passage ι s _ (inner ++ [_]) ((inner ++ [_]).flatMap (Ending.offers ι i))
      rw [List.flatMap_append, List.flatMap_singleton, Ending.offers, List.append_nil]
      exact hnoted
    all_goals
      show Passage ι s _ (inner ++ []) ((inner ++ []).flatMap (Ending.offers ι i))
      rw [List.append_nil]
      exact hsearch

end Session

/-! ## Steps -/

/-- The imports that end in a step, each with its importer. -/
def Step.endings : Step → Session → List (Nat × Ending)
  | .import i name, s => (Log.ofImport (s.weight i + 1) i name s).map fun e => (i, e)
  | .assign _ x, s => x.endings s
  | _, _ => []

/-- The offers that the hooks of importers make to an instrumentor at the ends of imports. -/
def Ending.allOffers (ι : Nat) (ends : List (Nat × Ending)) : List Offer :=
  ends.flatMap fun e => e.2.offers ι e.1

namespace Session

variable {ε α β : Type}

theorem aside_bind {x : Action ε α} {k : α → Action ε β} (hx : ∀ s, Aside s (x s).2)
    (hk : ∀ a s, Aside s (k a s).2) (s : Session) : Aside s ((x >>= k) s).2 := by
  have hfirst := hx s
  rw [Run.bind_apply]
  rcases hxs : x s with ⟨a | e | p | _, t⟩ <;> rw [hxs] at hfirst
  · exact hfirst.trans (hk a t)
  all_goals exact hfirst

theorem aside_onHeap (p : Heap → α × Heap) (s : Session) :
    Aside s ((onHeap p : Action ε α) s).2 := aside_world _ s

theorem aside_callBinding (fuel m : Nat) (name : String) (args : Arguments) (s : Session) :
    Aside s (s.callBinding fuel m name args).2 := by
  unfold callBinding
  split
  next => exact .refl s
  next =>
    split
    next => exact .refl s
    next => exact aside_world _ s

theorem aside_assign (name : String) (a : Answer) (s : Session) : Aside s (s.assign name a) := by
  cases a with
  | module m => exact .refl s
  | value v => exact aside_world _ s

end Session

/-- Whatever a step does about an instrumentor is in the imports that end in it. -/
theorem Step.passage_run (ι fuel : Nat) (x : Step) {s : Session}
    (hs : (s.instrumentors[ι]?).isSome) :
    Passage ι s (x.run fuel s).2 ((x.endings s).map Prod.snd)
      (Ending.allOffers ι (x.endings s)) := by
  have hquiet : ∀ y : Step, (∀ t, y.endings t = []) → (∀ t : Session, t.Aside (y.run fuel t).2) →
      Passage ι s (y.run fuel s).2 ((y.endings s).map Prod.snd)
        (Ending.allOffers ι (y.endings s)) := by
    intro y hnone haside
    rw [hnone]
    exact .of_aside hs (haside s)
  induction x generalizing s with
  | offer i b =>
    refine hquiet _ (fun _ => rfl) fun t => ?_
    exact Session.aside_bind (Session.aside_onHeap _) (fun m => Session.aside_bind
      (fun t => Session.aside_putSource i _ _ t) fun _ t => .refl t) t
  | offerLoader i name loader =>
    refine hquiet _ (fun _ => rfl) fun t => ?_
    exact Session.aside_bind (fun t => Session.aside_putSource i name _ t) (fun _ t => .refl t) t
  | «import» i name =>
    have himport := Session.passes_importWithin ι i (s.weight i + 1) name s hs
    have hends : ((Step.import i name).endings s).map Prod.snd =
        Log.ofImport (s.weight i + 1) i name s := by
      rw [Step.endings, List.map_map]
      exact List.map_id _
    rw [hends, Ending.allOffers, Step.endings, List.flatMap_map]
    exact himport
  | callBinding m name inputs =>
    refine hquiet _ (fun _ => rfl) fun t => ?_
    refine Session.aside_bind (Session.aside_onHeap _) (fun args t => ?_) t
    exact Session.aside_callBinding fuel m name args t
  | callVariable name inputs =>
    refine hquiet _ (fun _ => rfl) fun t => ?_
    exact Session.aside_bind (Session.aside_onHeap _) (fun args t => Session.aside_world _ t) t
  | bind target receiver? =>
    refine hquiet _ (fun _ => rfl) fun t => ?_
    exact Session.aside_bind (Session.aside_onHeap _) (fun args t => Session.aside_world _ t) t
  | push target item =>
    refine hquiet _ (fun _ => rfl) fun t => ?_
    exact Session.aside_bind (Session.aside_onHeap _) (fun _ => Session.aside_bind
      (Session.aside_onHeap _) fun _ => Session.aside_bind (Session.aside_onHeap _)
        fun _ t => .refl t) t
  | insert key target item =>
    refine hquiet _ (fun _ => rfl) fun t => ?_
    exact Session.aside_bind (Session.aside_onHeap _) (fun _ => Session.aside_bind
      (Session.aside_onHeap _) fun _ => Session.aside_bind (Session.aside_onHeap _)
        fun _ => Session.aside_bind (Session.aside_onHeap _) fun _ t => .refl t) t
  | fetch m name => exact hquiet _ (fun _ => rfl) fun t => .refl t
  | make l =>
    refine hquiet _ (fun _ => rfl) fun t => ?_
    exact Session.aside_bind (Session.aside_onHeap _) (fun _ t => .refl t) t
  | assign name x ih =>
    have hx := ih hs hquiet
    simp only [Step.run, Step.endings, Run.bind_apply]
    rcases hxs : x.run fuel s with ⟨a | e | p | _, t⟩ <;> rw [hxs] at hx
    · exact hx.then_aside (Session.aside_assign name a t)
    all_goals exact hx

end CallSampler
