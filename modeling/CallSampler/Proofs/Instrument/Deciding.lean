import CallSampler.Proofs.Instrument.Passing
import CallSampler.Proofs.Session.Course

/-!
# Each name is decided once

After an installation, a host program goes on: it imports and calls, it rebinds what modules bind,
it makes modules that no importer knows, and it offers modules directly to the context. By induction
on what it does, the names that the context has decided about are those of the modules offered to
it, the first offer of a name decides about it for good, and every import that succeeds is an offer
(`decides_once`).
-/

namespace CallSampler

/-! ## What can happen after an installation -/

/-- Something that happens to a session with a context. -/
inductive Deed where
  /-- A step of the host program, with fuel for the calls in it: an import, a call and so on. -/
  | act (fuel : Nat) (step : Step)
  /-- Offer a module to the context. -/
  | offer (m : Nat)
  /-- Assign what a module binds to a name, unless the name is read-only. -/
  | rebind (m : Nat) (name : String) (value : Value)
  /-- Make a module that no importer knows. -/
  | make (blueprint : Blueprint)

/-- A module with a name bound to a value, unless the name is read-only. -/
def Module.rebound (name : String) (value : Value) (md : Module) : Module :=
  match md.assign name value with
  | .ok md' => md'
  | .error _ => md

namespace Deed

def perform (c : Nat) : Deed → Session → Session
  | .act fuel step, s => (step.run fuel s).2
  | .offer m, s => (s.offer c m).2
  | .rebind m name value, s => s.onModule m (Module.rebound name value)
  | .make b, s => ((s.build b).2.addModule (s.build b).1).2

/-- The imports that end in a deed, each with its importer. -/
def endings : Deed → Session → List (Nat × Ending)
  | .act _ step, s => step.endings s
  | _, _ => []

/-- The offers that a deed makes to an instrumentor. -/
def offers (ι c : Nat) : Deed → Session → List Offer
  | .offer m, s => s.offersTo ι c m
  | deed, s => Ending.allOffers ι (deed.endings s)

end Deed

theorem Module.name_rebound (name : String) (value : Value) (md : Module) :
    (md.rebound name value).name = md.name := by
  unfold Module.rebound Module.assign
  split
  next h =>
    split at h
    next => cases h
    next => cases h; rfl
  next => rfl

namespace Session

variable {ι c i : Nat} {s : Session}

/-- The session after some deeds. -/
def after (c : Nat) (deeds : List Deed) (s : Session) : Session :=
  deeds.foldl (fun s d => d.perform c s) s

/-- The imports that end in some deeds, each with its importer. -/
def deedEndings (c : Nat) : List Deed → Session → List (Nat × Ending)
  | [], _ => []
  | d :: rest, s => d.endings s ++ deedEndings c rest (d.perform c s)

/-- The offers that some deeds make to an instrumentor. -/
def deedOffers (ι c : Nat) : List Deed → Session → List Offer
  | [], _ => []
  | d :: rest, s => d.offers ι c s ++ deedOffers ι c rest (d.perform c s)

theorem aside_onModule {f : Module → Module} (hf : ∀ md, (f md).name = md.name) (m : Nat)
    (s : Session) : Aside s (s.onModule m f) := by
  have hnames : ∀ k, (s.onModule m f).nameOf? k = s.nameOf? k := by
    intro k
    rw [nameOf?, nameOf?, onModule, Array.getElem?_modify]
    split
    next =>
      rw [Option.map_map, Function.comp_def]
      simp only [hf]
    next => rfl
  refine ⟨⟨fun _ => rfl, rfl, fun k name hk => (hnames k).trans hk, fun hs i name k hk => ?_⟩, rfl⟩
  rw [hnames]
  exact hs i name k hk

theorem isSome_offer (h : (s.instrumentors[ι]?).isSome) (c m : Nat) :
    ((s.offer c m).2.instrumentors[ι]?).isSome := isSome_fire h m (.instrumentation c)

/-- Whatever a deed does about an instrumentor is in its offers. -/
theorem passage_perform (hs : (s.instrumentors[ι]?).isSome) (c : Nat) (d : Deed) :
    Passage ι s (d.perform c s) ((d.endings s).map Prod.snd) (d.offers ι c s) := by
  cases d with
  | act fuel step => exact step.passage_run ι fuel hs
  | offer m =>
    exact ⟨steady_fire m s (.instrumentation c), isSome_offer hs c m, decides_offer hs c m,
      fun _ he => nomatch he⟩
  | rebind m name value => exact .of_aside hs (aside_onModule (Module.name_rebound name value) m s)
  | make b => exact .of_aside hs ((aside_world _ s).trans (aside_addModule _ _))

theorem passage_after (hs : (s.instrumentors[ι]?).isSome) (c : Nat) (deeds : List Deed) :
    Passage ι s (s.after c deeds) ((deedEndings c deeds s).map Prod.snd)
      (deedOffers ι c deeds s) := by
  induction deeds generalizing s with
  | nil => exact .of_aside hs (.refl s)
  | cons d rest ih =>
    have hfirst := passage_perform hs c d
    have hall := hfirst.trans (ih hfirst.there)
    rw [← List.map_append] at hall
    exact hall

/-- The only hook of an importer that offers modules is the one of a context with an instrumentor
that has decided nothing yet. -/
structure Attached (ι c i : Nat) (s : Session) : Prop where
  context : (s.contexts[c]?).map Context.instrumentor = some ι
  fresh : ∃ inst, s.instrumentors[ι]? = some inst ∧ inst.processed = []
  hook : ∃ others, s.hooks i = others ++ [.instrumentation c] ∧
    ∀ hook ∈ others, ∃ id, hook = .observer id
  housed : s.Housed

/-- Hooks that observe make no offers. -/
theorem hooksOffers_append {m : Nat} {others : List Hook} {rest : List Hook}
    (h : ∀ hook ∈ others, ∃ id, hook = .observer id) (s : Session) :
    hooksOffers ι m (others ++ rest) s = hooksOffers ι m rest (others.foldl (fire m) s) := by
  induction others generalizing s with
  | nil => rfl
  | cons hook others ih =>
    obtain ⟨hfirst, hothers⟩ := List.forall_mem_cons.mp h
    obtain ⟨id, rfl⟩ := hfirst
    exact ih hothers _

/-- At the end of an import that succeeds, the module is offered once. -/
theorem offers_of_found {e : Ending} {m : Nat} (h : s.Attached ι c i) (hsteady : s.Steady e.found)
    (hresult : e.result = .ok m) (hmodule : (e.found.nameOf? m).isSome) :
    ∃ o, e.offers ι i = [o] ∧ o.module = m ∧ e.found.nameOf? m = some o.name := by
  obtain ⟨others, hhooks, hothers⟩ := h.hook
  obtain ⟨name, hname⟩ := Option.isSome_iff_exists.mp hmodule
  have hfired : (others.foldl (fire m) e.found).nameOf? m = some name ∧
      (others.foldl (fire m) e.found).contexts = e.found.contexts := by
    clear hhooks hothers hsteady hmodule hresult
    generalize e.found = f at hname ⊢
    induction others generalizing f with
    | nil => exact ⟨hname, rfl⟩
    | cons hook others ih =>
      have hfirst := steady_fire m f hook
      obtain ⟨hlast, hcontexts⟩ := ih (f.fire m hook) (hfirst.names m name hname)
      exact ⟨hlast, hcontexts.trans hfirst.contexts⟩
  refine ⟨{ module := m, name, before := others.foldl (fire m) e.found }, ?_, rfl, hname⟩
  rw [Ending.offers, hresult]
  dsimp only
  rw [hsteady.hooks, hhooks, hooksOffers_append hothers, hooksOffers, hookOffers, offersTo,
    hfired.2, hsteady.contexts, if_pos h.context, hfired.1]
  rfl

/-- What holds of the decisions of a context after some deeds. -/
structure DecidesOnce (ι c i : Nat) (deeds : List Deed) (s : Session) : Prop where
  /-- The names decided about are those offered, each once. -/
  processed : Entries.keys ((s.after c deeds).processed ι) =
    ((deedOffers ι c deeds s).map Offer.name).eraseDups
  /-- As many names are decided about as were offered. -/
  count : ((s.after c deeds).processed ι).length =
    ((deedOffers ι c deeds s).map Offer.name).eraseDups.length
  /-- The first offer of a name evaluates the module, and its decision is the one that stands. -/
  first : ∀ earlier o later, deedOffers ι c deeds s = earlier ++ o :: later →
    o.name ∉ earlier.map Offer.name → ∃ state, (o.before.evaluate ι o.module).1 = .evaluated state ∧
      Entries.get? o.name ((s.after c deeds).processed ι) = some state
  /-- Every later offer of a name changes nothing at all. -/
  again : ∀ earlier o later, deedOffers ι c deeds s = earlier ++ o :: later →
    o.name ∈ earlier.map Offer.name →
      o.before.evaluate ι o.module = (.alreadyProcessed, o.before)
  /-- Every import that succeeds is an offer, whether or not the module was loaded before. -/
  imported : ∀ e, (i, e) ∈ deedEndings c deeds s → ∀ m, e.result = .ok m →
    ∃ o ∈ deedOffers ι c deeds s, e.offers ι i = [o] ∧ o.module = m ∧
      e.found.nameOf? m = some o.name
  /-- So is every module that is offered directly, at any time. -/
  direct : ∀ m name, (s.after c deeds).nameOf? m = some name →
    if name ∈ (deedOffers ι c deeds s).map Offer.name then
      (s.after c deeds).offer c m = (.alreadyProcessed, s.after c deeds)
    else ∃ state, ((s.after c deeds).offer c m).1 = .evaluated state ∧
      Entries.get? name (((s.after c deeds).offer c m).2.processed ι) = some state

theorem Attached.offer_eq {s' : Session} (h : s.Attached ι c i) (hsteady : s.Steady s') (m : Nat) :
    s'.offer c m = s'.evaluate ι m := by
  obtain ⟨ctx, hctx, hι⟩ := Option.map_eq_some_iff.mp h.context
  rw [← hsteady.contexts] at hctx
  simp only [offer, hctx, hι]

/-- The imports of deeds make the offers of their hooks. -/
theorem offers_subset {e : Nat × Ending} {o : Offer} (ho : o ∈ e.2.offers ι e.1) {deeds : List Deed}
    (he : e ∈ deedEndings c deeds s) : o ∈ deedOffers ι c deeds s := by
  induction deeds generalizing s with
  | nil => cases he
  | cons d rest ih =>
    rw [deedOffers]
    rw [deedEndings] at he
    rcases List.mem_append.mp he with he | he
    · cases d with
      | act fuel step => exact List.mem_append_left _ (List.mem_flatMap.mpr ⟨e, he, ho⟩)
      | _ => cases he
    · exact List.mem_append_right _ (ih he)

theorem Attached.decides (h : s.Attached ι c i) (deeds : List Deed) :
    DecidesOnce ι c i deeds s := by
  obtain ⟨inst, hinst, hempty⟩ := h.fresh
  have hthere : (s.instrumentors[ι]?).isSome := by rw [hinst, Option.isSome_some]
  have hpassage := passage_after hthere c deeds
  have hdecides := hpassage.decides
  rw [processed_of_getElem? hinst, hempty] at hdecides
  have hkeys : Entries.keys ((s.after c deeds).processed ι) =
      ((deedOffers ι c deeds s).map Offer.name).eraseDups := by
    have hall : ((deedOffers ι c deeds s).map Offer.name).filter
        (· ∉ Entries.keys ([] : List (String × ModuleState))) =
          (deedOffers ι c deeds s).map Offer.name := by simp
    rw [hdecides.keys, Entries.foldl_addNew, hall]
    rfl
  refine ⟨hkeys, ?_, fun earlier o later hsplit hnew => ?_, fun earlier o later hsplit hknown => ?_,
    fun e he m hm => ?_, fun m name hname => ?_⟩
  · rw [← hkeys, Entries.keys, List.length_map]
  · rw [hsplit] at hdecides
    exact hdecides.evaluated (by simp) hnew
  · rw [hsplit] at hdecides
    exact hdecides.ignored hknown
  · obtain ⟨hsteady, hmodule⟩ := hpassage.found e (List.mem_map.mpr ⟨(i, e), he, rfl⟩)
    obtain ⟨o, ho, hom, honame⟩ := offers_of_found h hsteady hm (hmodule h.housed m hm)
    exact ⟨o, offers_subset (by rw [ho]; exact List.mem_singleton_self o) he, ho, hom, honame⟩
  · have hone := decides_evaluate hpassage.there m
    rw [hname, Option.toList_some, List.map_singleton] at hone
    have hmem := hdecides.mem_keys_iff name
    rw [h.offer_eq hpassage.steady]
    split
    next hknown =>
      cases hone with
      | again _ _ evaluation _ => exact evaluation
      | first _ new _ _ => exact absurd (hmem.mpr (.inr hknown)) new
    next hnew =>
      have hunknown : name ∉ Entries.keys ((s.after c deeds).processed ι) :=
        fun hk => (hmem.mp hk).elim (absurd · List.not_mem_nil) hnew
      have hsplit : Decides ι ((s.after c deeds).processed ι)
        ([] ++ ⟨m, name, s.after c deeds⟩ :: []) _ := hone
      exact hsplit.evaluated hunknown (by simp)

/-- The first installation on an importer attaches a new context to it. -/
theorem attached_install {imp : Importer} (himp : s.importers[i]? = some imp)
    (hfree : ∀ hook ∈ imp.hooks, hook.id ≠ instrumentationId) (hhoused : s.Housed)
    (config : Config) :
    (s.install i config).2.Attached s.instrumentors.size s.contexts.size i := by
  have hany : imp.hooks.any (·.id == instrumentationId) = false :=
    List.any_eq_false.mpr fun hook hmem => by simp [hfree hook hmem]
  have hnone : s.installed? i = none := by
    have hfind : imp.hooks.find? (·.id == instrumentationId) = none :=
      List.find?_eq_none.mpr fun hook hmem => by simp [hfree hook hmem]
    simp only [installed?, himp, Option.bind_some, hfind]
  let made : Session := (s.addContext config).2
  let hooked (imp : Importer) : Importer :=
    { imp with hooks := imp.hooks ++ [.instrumentation s.contexts.size] }
  have hhook : made.installHook i (.instrumentation s.contexts.size) =
      (true, made.onImporter i hooked) := Course.installHook_of_free himp hany
  have hinstall : (s.install i config).2 =
      (made.onImporter i hooked).notify (.installed config.cacheFile) := by
    rw [install_of_none hnone]
    exact congrArg (Session.notify _) (congrArg Prod.snd hhook)
  rw [hinstall]
  refine ⟨?_, ⟨_, Array.getElem?_push_size, rfl⟩, ⟨imp.hooks, ?_, fun hook hmem => ?_⟩,
    fun j name m hm => ?_⟩
  · show (made.contexts[s.contexts.size]?).map Context.instrumentor = _
    exact congrArg (Option.map Context.instrumentor) Array.getElem?_push_size
  · have hmade : made.importers[i]? = some imp := himp
    show (((made.onImporter i hooked).importers[i]?).map Importer.hooks).getD [] = _
    rw [getElem?_onImporter, hmade]
    rfl
  · cases hook with
    | instrumentation c => exact absurd rfl (hfree _ hmem)
    | observer id => exact ⟨id, rfl⟩
  · have hm : (made.onImporter i hooked).loaded? j name = some m := hm
    rw [loaded?_onImporter (f := hooked) fun _ => rfl] at hm
    exact hhoused j name m hm

/-- Each module name is decided about once. After the first installation on an importer, whatever
imports, calls, rebindings and direct offers follow, in any order, with modules that were loaded
before and with others of the same name: the first offer of a name evaluates the module and decides
about the name for good, every later one changes nothing, and every import that succeeds is an
offer. -/
theorem decides_once {imp : Importer} (himp : s.importers[i]? = some imp)
    (hfree : ∀ hook ∈ imp.hooks, hook.id ≠ instrumentationId) (hhoused : s.Housed)
    (config : Config) (deeds : List Deed) :
    DecidesOnce s.instrumentors.size s.contexts.size i deeds (s.install i config).2 :=
  (attached_install himp hfree hhoused config).decides deeds

/-- A session with a module that is loaded, and another one of the same name to be loaded. -/
def withLoaded : Session :=
  { withMixed with
    importers := #[{ sources := [("alias", .ready (.blank "m" none))], loaded := [("m", 0)],
                     hooks := [] }]
    instrumentors := #[] }

theorem housed_withLoaded : withLoaded.Housed := by
  intro i name m h
  obtain ⟨imp, himp, hget⟩ := Option.bind_eq_some_iff.mp h
  obtain rfl : i = 0 := Nat.lt_one_iff.mp (Array.getElem?_eq_some_iff.mp himp).1
  cases himp
  obtain rfl := (Prod.mk.inj (List.mem_singleton.mp (Entries.mem_of_find? hget))).2
  rfl

end Session

/-- The module that is loaded is imported, changed, imported under another name from elsewhere and
offered directly, and so is one that no importer knows. -/
def Deed.clashing : List Deed :=
  [.act 0 (.import 0 "m"),
    .rebind 0 "add" (.int 0),
    .act 0 (.import 0 "alias"),
    .make { name := "n", file := none, definitions := [], bindings := [], readOnly := [] },
    .offer 2,
    .offer 0]

theorem Session.decides_once_clashing :
    let installed := (withLoaded.install 0 (.ofPaths { text := "/c" } { text := "/w" })).2
    DecidesOnce 0 0 0 Deed.clashing installed ∧
      (deedOffers 0 0 Deed.clashing installed).map (fun o => (o.name, o.module)) =
        [("m", 0), ("m", 1), ("n", 2), ("m", 0)] ∧
      (installed.after 0 Deed.clashing).processed 0 =
        [("m", .instrumented ["m.add", "m.method"] ["m.locked"]),
          ("n", .skipped .noSourceFile)] := by
  have himp : withLoaded.importers[0]? =
      some { sources := [("alias", .ready (.blank "m" none))], loaded := [("m", 0)],
             hooks := [] } := rfl
  exact ⟨Session.decides_once himp (fun _ hmem => nomatch hmem) housed_withLoaded _ _,
    by decide +kernel, by decide +kernel⟩

end CallSampler
