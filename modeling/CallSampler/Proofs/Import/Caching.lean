import CallSampler.Proofs.Import.Registry

/-!
# Imports are cached

While the loader of a module runs, the name is neither loaded nor available, and it stays so where
loaders only import. So a name is loaded once, however imports nest or go in circles
(`Stretch.same`). An import is lawful by what it finds: what is loaded is handed out, a loader that
errs is put back, and the hooks see the module of each import that succeeds, once and in order
(`Ending.Lawful`). That holds by induction on the fuel (`sound_importWithin`), which lasts because
each load takes a source out of the registry.
-/

namespace CallSampler

/-! ## Lawful imports -/

/-- A loader that has run so many times before ran once more: its module is loaded, or it is put
back. -/
inductive Ending.Ran (i : Nat) (e : Ending) (loader : Loader) (runs : Nat) : Prop where
  | loaded (fuel : Nat) (md : Module) (s : Session)
    (run : Session.runLoader (Session.importWithin fuel i) i (runs + 1) loader
      (e.before.dropSource i e.name) = (.ok md, s))
    (result : e.result = .ok (s.keep i e.name md).1) (found : e.found = (s.keep i e.name md).2)
  | refused (fuel : Nat) (cause : LoadError) (s : Session)
    (run : Session.runLoader (Session.importWithin fuel i) i (runs + 1) loader
      (e.before.dropSource i e.name) = (.error cause, s))
    (result : e.result = .error (.loadFailed e.name cause))
    (found : e.found = s.putSource i e.name (.deferred loader (runs + 1)))

/-- What an import comes to, by what it finds. -/
structure Ending.Lawful (i : Nat) (e : Ending) : Prop where
  /-- What is loaded is handed out. -/
  cached : ∀ m, e.before.loaded? i e.name = some m → e.result = .ok m
  absent : e.before.Absent i e.name → e.result = .error (.notFound e.name)
  /-- A loader that is in place runs. -/
  ran : ∀ loader runs, e.before.loaded? i e.name = none →
    e.before.source? i e.name = some (.deferred loader runs) → e.Ran i loader runs
  /-- A loader that errs is in place afterwards, and its module is not loaded. -/
  retained : ∀ loader runs cause, e.before.loaded? i e.name = none →
    e.before.source? i e.name = some (.deferred loader runs) → e.result = .error cause →
      e.after.source? i e.name = some (.deferred loader (runs + 1)) ∧
        e.after.loaded? i e.name = none
  hooks : e.found.hooks i = e.before.hooks i
  /-- After an import that succeeds every hook sees the module, in the order of installation. -/
  fired : ∀ m, e.result = .ok m → e.after = (e.found.hooks i).foldl (Session.fire m) e.found
  /-- No hook sees an import that fails. -/
  unfired : ∀ cause, e.result = .error cause → e.after = e.found

/-- A stretch of a run from one session to another, with the imports that end in it. -/
structure Stretch (R : Session → Session → Prop) (i : Nat) (s s' : Session) (ends : List Ending) :
    Prop where
  onward : R s s'
  began : ∀ e ∈ ends, R s e.before
  hooks : ∀ e ∈ ends, e.before.hooks i <+: s'.hooks i
  loaded : ∀ e ∈ ends, ∀ m, e.result = .ok m → s'.loaded? i e.name = some m
  /-- What one import loads, all later ones find. -/
  same : ends.Pairwise fun e e' => e.name = e'.name → ∀ m, e.result = .ok m →
    e'.before.loaded? i e.name = some m
  lawful : ∀ e ∈ ends, e.Lawful i
  sightings : s'.sightings = s.sightings ++ ends.flatMap (Ending.sightings i)

namespace Ending

variable {i m : Nat} {e : Ending}

theorem Lawful.sameImporter (h : e.Lawful i) : Session.SameImporter i e.found e.after := by
  constructor
  cases hresult : e.result with
  | ok m => rw [h.fired m hresult, Session.importers_foldl_fire]
  | error cause => rw [h.unfired cause hresult]

theorem Lawful.sightings_after (h : e.Lawful i) :
    e.after.sightings = e.found.sightings ++ e.sightings i := by
  unfold Ending.sightings
  cases hresult : e.result with
  | ok m => rw [h.fired m hresult, Session.sightings_foldl_fire]
  | error cause => rw [h.unfired cause hresult, List.append_nil]

end Ending

namespace Stretch

variable {R R' : Session → Session → Prop} {i : Nat} {s s' s'' t u : Session}
  {ends more : List Ending} {e : Ending}

theorem nothing (h : R s s') (hsightings : s'.sightings = s.sightings) :
    Stretch R i s s' [] where
  onward := h
  began := fun _ he => nomatch he
  hooks := fun _ he => nomatch he
  loaded := fun _ he => nomatch he
  same := .nil
  lawful := fun _ he => nomatch he
  sightings := by rw [hsightings, List.flatMap_nil, List.append_nil]

theorem mono (h : Stretch R i s s' ends) (hR : ∀ s t, R s t → R' s t) : Stretch R' i s s' ends :=
  { h with
    onward := hR _ _ h.onward
    began := fun e he => hR _ _ (h.began e he) }

theorem trans (htrans : ∀ s t u, R s t → R t u → R s u)
    (honward : ∀ s t, R s t → Session.Onward i s t)
    (h : Stretch R i s s' ends) (h' : Stretch R i s' s'' more) :
    Stretch R i s s'' (ends ++ more) where
  onward := htrans _ _ _ h.onward h'.onward
  began := by
    intro e he
    rcases List.mem_append.mp he with he | he
    · exact h.began e he
    · exact htrans _ _ _ h.onward (h'.began e he)
  hooks := by
    intro e he
    rcases List.mem_append.mp he with he | he
    · exact (h.hooks e he).trans (honward _ _ h'.onward).hooks
    · exact h'.hooks e he
  loaded := by
    intro e he m hm
    rcases List.mem_append.mp he with he | he
    · exact (honward _ _ h'.onward).loaded _ _ (h.loaded e he m hm)
    · exact h'.loaded e he m hm
  same := by
    refine List.pairwise_append.mpr ⟨h.same, h'.same, fun e he e' he' _ m hm => ?_⟩
    exact (honward _ _ (h'.began e' he')).loaded _ _ (h.loaded e he m hm)
  lawful := by
    intro e he
    rcases List.mem_append.mp he with he | he
    · exact h.lawful e he
    · exact h'.lawful e he
  sightings := by
    rw [h'.sightings, h.sightings, List.append_assoc, List.flatMap_append]

theorem append (h : Stretch (Session.Later i) i s s' ends)
    (h' : Stretch (Session.Later i) i s' s'' more) :
    Stretch (Session.Later i) i s s'' (ends ++ more) :=
  h.trans (fun _ _ _ => Session.Later.trans) (fun _ _ => Session.Later.onward) h'

/-- An import of what is loaded comes to the same module, and any other one of its name after it. -/
theorem pairwise_same (h : Stretch R i s s' ends) :
    ends.Pairwise fun e e' => e.name = e'.name → ∀ m, e.result = .ok m →
      e'.result = .ok m ∧ e'.before.loaded? i e.name = some m := by
  refine List.Pairwise.imp_of_mem (fun _ he' hsame hname m hm => ?_) h.same
  have hloaded := hsame hname m hm
  exact ⟨(h.lawful _ he').cached m (hname ▸ hloaded), hloaded⟩

/-- The imports inside an import, as seen from where it began to where its module was found. -/
theorem around (h : Stretch (Session.Later i) i s s' ends) (hbefore : Session.Later i t s)
    (hafter : Session.Later i t u)
    (hloaded : ∀ name m, s'.loaded? i name = some m → u.loaded? i name = some m)
    (hbegan : s.sightings = t.sightings) (hended : u.sightings = s'.sightings) :
    Stretch (Session.Later i) i t u ends where
  onward := hafter
  began := fun e he => hbefore.trans (h.began e he)
  hooks := by
    intro e he
    simp only [(hbefore.trans (h.began e he)).hooks, hafter.hooks, List.prefix_rfl]
  loaded := fun e he m hm => hloaded _ _ (h.loaded e he m hm)
  same := h.same
  lawful := h.lawful
  sightings := by rw [hended, h.sightings, hbegan]

end Stretch

/-! ## Imports -/

/-- Where every loader only imports and the fuel lasts, an action ends, and what ends in it is
logged. -/
def Action.Sound {ε α : Type} (i fuel : Nat) (x : Action ε α) (log : Log) : Prop :=
  ∀ s : Session, s.Plain i → s.weight i < fuel →
    (x s).1.Ends ∧ Stretch (Session.Later i) i s (x s).2 (log s)

namespace Session

variable {ε ε' α β : Type} {i fuel : Nat} {s : Session}

open CallSampler.Action

theorem sound_const {f : Session → Outcome ε α} (h : ∀ s, (f s).Ends) :
    Sound i fuel (fun s => (f s, s) : Action ε α) fun _ => [] :=
  fun s _ _ => ⟨h s, .nothing (.refl s) rfl⟩

theorem sound_followed {x : Action ε α} {log : Log} {k : α → Action ε β} {next : α → Log}
    (hx : Sound i fuel x log) (hk : ∀ a, Sound i fuel (k a) (next a)) :
    Sound i fuel (x >>= k) (.followed x log next) := by
  intro s hplain hweight
  obtain ⟨hends, hstretch⟩ := hx s hplain hweight
  rw [Run.bind_apply, Log.followed]
  rcases hxs : x s with ⟨a | e | p | _, t⟩ <;> rw [hxs] at hends hstretch
  · have hlater := hstretch.onward
    obtain ⟨hends', hstretch'⟩ := hk a t (hlater.plain hplain)
      (Nat.lt_of_le_of_lt hlater.weight hweight)
    exact ⟨hends', hstretch.append hstretch'⟩
  · rw [List.append_nil]
    exact ⟨trivial, hstretch⟩
  · exact hends.elim
  · exact hends.elim

/-- An action that goes where another one goes, and ends if that one does. -/
theorem sound_answering {x : Action ε α} {y : Action ε' β} {log : Log} (hx : Sound i fuel x log)
    (h : ∀ s, (y s).2 = (x s).2 ∧ ((x s).1.Ends → (y s).1.Ends)) : Sound i fuel y log := by
  intro s hplain hweight
  obtain ⟨hends, hstretch⟩ := hx s hplain hweight
  exact ⟨(h s).2 hends, (h s).1 ▸ hstretch⟩

section Loading

variable {importBy : String → Action ImportError Nat} {log : String → Log}

theorem sound_loadTest (hi : ∀ name, Sound i fuel (importBy name) (log name)) (run : Nat)
    (test : LoadTest) : Sound i fuel (loadTest importBy run test) (.ofTest log test) := by
  cases test with
  | imports name =>
    refine sound_answering (hi name) fun s => ?_
    simp only [loadTest]
    rcases importBy name s with ⟨_ | _ | _ | _, t⟩ <;> exact ⟨rfl, id⟩
  | early runs => exact sound_const fun _ => trivial
  | holds name => exact sound_const fun _ => trivial

mutual

theorem sound_loadStep (hi : ∀ name, Sound i fuel (importBy name) (log name)) (run : Nat) :
    ∀ step : LoadStep, step.Importing →
      Sound i fuel (loadStep importBy i run step) (.ofStep importBy log i run step)
  | .require name, _ => by
    rw [loadStep, Log.ofStep]
    refine sound_answering (hi name) fun s => ?_
    dsimp only
    rcases importBy name s with ⟨_ | _ | _ | _, t⟩ <;> exact ⟨rfl, id⟩
  | .attempt name, _ => by
    rw [Log.ofStep]
    refine sound_answering (hi name) fun s => ?_
    simp only [loadStep]
    rcases importBy name s with ⟨_ | _ | _ | _, t⟩ <;> exact ⟨rfl, id⟩
  | .fail text, _ => by
    rw [loadStep, Log.ofStep]
    exact sound_const fun _ => trivial
  | .branch test yes no, h => by
    rw [LoadStep.Importing] at h
    rw [loadStep, Log.ofStep]
    refine sound_followed (sound_loadTest hi run test) fun b => ?_
    cases b with
    | true => exact sound_loadSteps hi run yes h.1
    | false => exact sound_loadSteps hi run no h.2
  | .offer b, h => by
    rw [LoadStep.Importing] at h
    exact h.elim
  | .offerLoader name loader, h => by
    rw [LoadStep.Importing] at h
    exact h.elim

theorem sound_loadSteps (hi : ∀ name, Sound i fuel (importBy name) (log name)) (run : Nat) :
    ∀ steps : List LoadStep, AllImporting steps →
      Sound i fuel (loadSteps importBy i run steps) (.ofSteps importBy log i run steps)
  | [], _ => by
    rw [loadSteps, Log.ofSteps]
    exact sound_const fun _ => trivial
  | step :: rest, h => by
    rw [AllImporting] at h
    rw [loadSteps, Log.ofSteps]
    exact sound_followed (sound_loadStep hi run step h.1) fun _ => sound_loadSteps hi run rest h.2

end

/-- What a loader builds shows in no importer. -/
theorem sound_runLoader (hi : ∀ name, Sound i fuel (importBy name) (log name)) (run : Nat)
    {loader : Loader} (h : loader.Importing) :
    Sound i fuel (runLoader importBy i run loader) (.ofLoader importBy log i run loader) := by
  obtain ⟨steps, failures, complaint, finish⟩ := loader
  obtain ⟨hsteps, b, rfl⟩ := h
  intro s hplain hweight
  obtain ⟨hends, hstretch⟩ := sound_loadSteps hi run steps hsteps s hplain hweight
  rw [runLoader, Log.ofLoader, Run.bind_apply]
  rcases hrun : loadSteps importBy i run steps s with ⟨a | e | p | _, t⟩ <;>
    rw [hrun] at hends hstretch
  · by_cases hfails : run ≤ failures
    · simp only [hfails, if_true]
      exact ⟨trivial, hstretch⟩
    · simp only [hfails, if_false]
      have hbuilt : Stretch (Later i) i t (t.build b).2 [] :=
        .nothing (SameImporter.later ⟨rfl⟩) rfl
      have hall := hstretch.append hbuilt
      rw [List.append_nil] at hall
      exact ⟨trivial, hall⟩
  · exact ⟨trivial, hstretch⟩
  · exact hends.elim
  · exact hends.elim

end Loading

end Session

/-! ### Finding a module -/

/-- An import whose module was found, or was not, with the imports inside it. -/
structure Ending.Closes (i : Nat) (e : Ending) (inner : List Ending) : Prop where
  stretch : Stretch (Session.Later i) i e.before e.found inner
  lawful : e.Lawful i
  /-- Inside the loading of a module its name is absent. -/
  absent : ∀ e' ∈ inner, e'.name = e.name → e'.before.Absent i e'.name
  kept : ∀ m, e.result = .ok m → e.found.loaded? i e.name = some m

namespace Ending

variable {i m : Nat} {name : String} {s f : Session} {e : Ending} {inner : List Ending}

/-- The end of an import comes after the imports inside it, none of which could load the same
name. -/
theorem Closes.close (h : e.Closes i inner) :
    Stretch (Session.Later i) i e.before e.after (inner ++ [e]) where
  onward := h.stretch.onward.trans h.lawful.sameImporter.later
  began := by
    intro e' he'
    rcases List.mem_append.mp he' with he' | he'
    · exact h.stretch.began e' he'
    · rw [List.mem_singleton.mp he']
      exact .refl _
  hooks := by
    intro e' he'
    rw [h.lawful.sameImporter.hooks]
    rcases List.mem_append.mp he' with he' | he'
    · exact h.stretch.hooks e' he'
    · simp only [List.mem_singleton.mp he', h.lawful.hooks, List.prefix_rfl]
  loaded := by
    intro e' he' m hm
    rw [h.lawful.sameImporter.loaded?]
    rcases List.mem_append.mp he' with he' | he'
    · exact h.stretch.loaded e' he' m hm
    · obtain rfl := List.mem_singleton.mp he'
      exact h.kept m hm
  same := by
    refine List.pairwise_append.mpr ⟨h.stretch.same, List.pairwise_singleton _ _,
      fun e' he' e'' he'' hname m hm => ?_⟩
    obtain rfl := List.mem_singleton.mp he''
    have herror := (h.stretch.lawful e' he').absent (h.absent e' he' hname)
    rw [hm] at herror
    cases herror
  lawful := by
    intro e' he'
    rcases List.mem_append.mp he' with he' | he'
    · exact h.stretch.lawful e' he'
    · rw [List.mem_singleton.mp he']
      exact h.lawful
  sightings := by
    rw [h.lawful.sightings_after, h.stretch.sightings, List.append_assoc, List.flatMap_append,
      List.flatMap_singleton]

/-- An import that finds a module. -/
theorem lawful_of_ok (hcached : ∀ m', s.loaded? i name = some m' → m' = m)
    (habsent : ¬s.Absent i name)
    (hran : ∀ loader runs, s.loaded? i name = none →
      s.source? i name = some (.deferred loader runs) →
        Ran i ⟨name, s, .ok m, f, f.fireHooks i m⟩ loader runs)
    (hhooks : f.hooks i = s.hooks i) : Lawful i ⟨name, s, .ok m, f, f.fireHooks i m⟩ where
  cached := fun m' hm' => by rw [hcached m' hm']
  absent := fun h => absurd h habsent
  ran := hran
  retained := fun _ _ _ _ _ h => nomatch h
  hooks := hhooks
  fired := by
    intro m' hm'
    cases hm'
    exact Session.fireHooks_eq i m f
  unfired := fun _ h => nomatch h

/-- An import that fails, by itself or by its loader. -/
theorem lawful_of_error {cause : ImportError} (hloaded : s.loaded? i name = none)
    (habsent : s.Absent i name → cause = .notFound name)
    (hran : ∀ loader runs, s.source? i name = some (.deferred loader runs) →
      Ran i ⟨name, s, .error cause, f, f⟩ loader runs ∧
        f.source? i name = some (.deferred loader (runs + 1)) ∧ f.loaded? i name = none)
    (hhooks : f.hooks i = s.hooks i) : Lawful i ⟨name, s, .error cause, f, f⟩ where
  cached := by
    intro m hm
    rw [hloaded] at hm
    cases hm
  absent := fun h => by rw [habsent h]
  ran := fun loader runs _ hsource => (hran loader runs hsource).1
  retained := fun loader runs _ _ hsource _ => (hran loader runs hsource).2
  hooks := hhooks
  fired := fun _ h => nomatch h
  unfired := fun _ _ => rfl

end Ending

namespace Session

variable {i m runs fuel : Nat} {name : String} {s t : Session} {loader : Loader}
  {inner : List Ending}

/-- A module that is loaded is found at once. -/
theorem closes_loaded (h : s.loaded? i name = some m) :
    Ending.Closes i ⟨name, s, .ok m, s, s.fireHooks i m⟩ [] where
  stretch := .nothing (.refl s) rfl
  lawful := by
    refine Ending.lawful_of_ok (fun m' hm' => ?_) (fun habsent => ?_) (fun _ _ hnone => ?_) rfl
    · exact Option.some.inj (hm'.symm.trans h)
    · exact nomatch habsent.loaded.symm.trans h
    · exact nomatch hnone.symm.trans h
  absent := fun _ he => nomatch he
  kept := fun m' hm' => by cases hm'; exact h

/-- A name that is absent is not found. -/
theorem closes_absent (h : s.Absent i name) :
    Ending.Closes i ⟨name, s, .error (.notFound name), s.dropSource i name, s.dropSource i name⟩
      [] where
  stretch := .nothing (later_dropSource i name s) rfl
  lawful := by
    refine Ending.lawful_of_error h.loaded (fun _ => rfl) (fun loader runs hsource => ?_)
      (hooks_dropSource i name s)
    exact nomatch h.source.symm.trans hsource
  absent := fun _ he => nomatch he
  kept := fun _ hm => nomatch hm

/-- A module that was loaded is kept, after the imports that its loader asked for. -/
theorem closes_kept {source : Source} (hloaded : s.loaded? i name = none)
    (hsource : s.source? i name = some source)
    (h : Stretch (Later i) i (s.dropSource i name) t inner) (md : Module)
    (hran : ∀ loader runs, s.source? i name = some (.deferred loader runs) →
      Ending.Ran i ⟨name, s, .ok (t.keep i name md).1, (t.keep i name md).2,
        (t.keep i name md).2.fireHooks i (t.keep i name md).1⟩ loader runs) :
    Ending.Closes i ⟨name, s, .ok (t.keep i name md).1, (t.keep i name md).2,
      (t.keep i name md).2.fireHooks i (t.keep i name md).1⟩ inner := by
  have hfirst := later_dropSource i name s
  have habsent := absent_dropSource hloaded
  have hunloaded := (h.onward.absent name habsent).loaded
  have hlater := hfirst.trans h.onward
  have hthere := hlater.there (isSome_of_source? hsource)
  have hkept := hlater.keep hsource hunloaded md
  refine ⟨h.around hfirst hkept (fun k m hk => ?_) rfl rfl, ?_, fun e he hname => ?_,
    fun m hm => ?_⟩
  · have hne : name ≠ k := by
      rintro rfl
      exact nomatch hunloaded.symm.trans hk
    rw [loaded?_keep hthere, if_neg hne, hk]
  · refine Ending.lawful_of_ok (fun m' hm' => ?_) (fun hnone => ?_)
      (fun loader runs _ => hran loader runs) hkept.hooks
    · exact nomatch hloaded.symm.trans hm'
    · exact nomatch hnone.source.symm.trans hsource
  · rw [hname]
    exact (h.began e he).absent name habsent
  · cases hm
    show (t.keep i name md).2.loaded? i name = _
    rw [loaded?_keep hthere, if_pos rfl]

/-- A loader that errs is put back, after the imports that it asked for. -/
theorem closes_refused (hloaded : s.loaded? i name = none)
    (hsource : s.source? i name = some (.deferred loader runs))
    (h : Stretch (Later i) i (s.dropSource i name) t inner) {cause : LoadError}
    (hrun : runLoader (importWithin fuel i) i (runs + 1) loader (s.dropSource i name) =
      (.error cause, t)) :
    Ending.Closes i ⟨name, s, .error (.loadFailed name cause),
      t.putSource i name (.deferred loader (runs + 1)),
      t.putSource i name (.deferred loader (runs + 1))⟩ inner := by
  have hfirst := later_dropSource i name s
  have habsent := absent_dropSource hloaded
  have hunloaded := (h.onward.absent name habsent).loaded
  have hthere := (hfirst.trans h.onward).there (isSome_of_source? hsource)
  let back : Source := .deferred loader (runs + 1)
  have hput : Later i s (t.putSource i name back) := h.onward.putSource hsource rfl id
  refine ⟨h.around hfirst hput (fun k m hk => ?_) rfl rfl, ?_, fun e he hname => ?_,
    fun m hm => nomatch hm⟩
  · exact (loaded?_putSource i name k back t).trans hk
  · refine Ending.lawful_of_error hloaded (fun hnone => ?_) (fun loader' runs' hsource' => ?_)
      hput.hooks
    · exact nomatch hnone.source.symm.trans hsource
    · rw [hsource] at hsource'
      cases hsource'
      refine ⟨.refused fuel cause t hrun rfl rfl, ?_, ?_⟩
      · rw [source?_putSource hthere, if_pos rfl]
      · exact (loaded?_putSource i name name back t).trans hunloaded
  · rw [hname]
    exact (h.began e he).absent name habsent

/-- Imports end as they should, by induction on the fuel: a load takes a source out, and so there is
less for the imports inside it. -/
theorem sound_importWithin (i fuel : Nat) (name : String) :
    Action.Sound i fuel (importWithin fuel i name) (Log.ofImport fuel i name) := by
  induction fuel generalizing name with
  | zero => exact fun s _ hweight => absurd hweight (Nat.not_lt_zero _)
  | succ fuel ih =>
    intro s hplain hweight
    rw [importWithin_succ, Log.ofImport]
    cases hloaded : s.loaded? i name with
    | some m =>
      simp only [find, Log.ofFind, hloaded]
      exact ⟨trivial, (closes_loaded hloaded).close⟩
    | none =>
      simp only [find, Log.ofFind, load, takeSource_eq, hloaded]
      cases hsource : s.source? i name with
      | none => exact ⟨trivial, (closes_absent ⟨hsource, hloaded⟩).close⟩
      | some source =>
        have htaken := weight_dropSource hsource
        have hfirst := later_dropSource i name s
        cases source with
        | ready md =>
          have hran : ∀ loader runs, s.source? i name ≠ some (.deferred loader runs) := by
            rw [hsource]
            intro loader runs h
            cases h
          have hcloses := closes_kept hloaded hsource (.nothing (.refl _) rfl) md
            fun loader runs h => absurd h (hran loader runs)
          exact ⟨trivial, hcloses.close⟩
        | deferred loader runs =>
          have hpositive := loader.size_pos
          have hless : (s.dropSource i name).weight i < fuel := by
            rw [Source.size] at htaken
            omega
          obtain ⟨hends, hinner⟩ := sound_runLoader ih (runs + 1) (hplain name _ hsource) _
            (hfirst.plain hplain) hless
          dsimp only
          rcases hrun : runLoader (importWithin fuel i) i (runs + 1) loader
            (s.dropSource i name) with ⟨md | cause | p | _, t⟩ <;> rw [hrun] at hends hinner
          · have hran : ∀ loader' runs', s.source? i name = some (.deferred loader' runs') →
                Ending.Ran i ⟨name, s, .ok (t.keep i name md).1, (t.keep i name md).2,
                  (t.keep i name md).2.fireHooks i (t.keep i name md).1⟩ loader' runs' := by
              intro loader' runs' h
              rw [hsource] at h
              cases h
              exact .loaded fuel md t hrun rfl rfl
            exact ⟨trivial, (closes_kept hloaded hsource hinner md hran).close⟩
          · exact ⟨trivial, (closes_refused hloaded hsource hinner hrun).close⟩
          · exact hends.elim
          · exact hends.elim

end Session

end CallSampler
