import CallSampler.Proofs.Import.Caching

/-!
# Requests to an importer

Modules and loaders are registered, hooks are installed and names are imported, in any order. Each
request keeps what is loaded and the hooks that there are (`stretch_perform`), and what holds of
single imports holds of all that end in a sequence of requests, by induction on it
(`caches_imports`).
-/

namespace CallSampler

/-! ## Requests -/

/-- Something that is asked of an importer. -/
inductive Request where
  | register (m : Module)
  | registerLoader (name : String) (loader : Loader)
  | installHook (hook : Hook)
  | import (name : String)

namespace Request

def perform (i : Nat) : Request → Session → Session
  | .register m, s => s.register i m
  | .registerLoader name loader, s => s.registerLoader i name loader
  | .installHook hook, s => (s.installHook i hook).2
  | .import name, s => (Session.importModule i name s).2

/-- The imports that end while a request is carried out. -/
def endings (i : Nat) : Request → Log
  | .import name => fun s => Log.ofImport (s.weight i + 1) i name s
  | _ => fun _ => []

/-- A loader that is registered only imports. -/
def Importing : Request → Prop
  | .registerLoader _ loader => loader.Importing
  | _ => True

end Request

def Outcome.ofExcept {ε α : Type} : Except ε α → Outcome ε α
  | .ok a => .ok a
  | .error e => .error e

/-- A module that was not loaded is loaded. -/
def Ending.Loads (i : Nat) (e : Ending) : Prop :=
  e.before.loaded? i e.name = none ∧ ∃ m, e.result = .ok m

namespace Session

variable {i : Nat} {name : String} {s : Session} {requests : List Request}

/-- Carry out requests to an importer, one after the other. -/
def performAll (i : Nat) (requests : List Request) (s : Session) : Session :=
  requests.foldl (fun s r => r.perform i s) s

/-- The imports that end while requests are carried out. -/
def endings (i : Nat) : List Request → Log
  | [] => fun _ => []
  | r :: rest => fun s => r.endings i s ++ endings i rest (r.perform i s)

/-- No two hooks of an importer have the same identifier. -/
def DistinctHooks (i : Nat) (s : Session) : Prop := ((s.hooks i).map Hook.id).Nodup

theorem plain_putSource (h : s.Plain i) (name : String) {source : Source}
    (hsource : source.Importing) : (s.putSource i name source).Plain i := by
  intro k found hk
  by_cases hthere : (s.importers[i]?).isSome
  · rw [source?_putSource hthere] at hk
    split at hk
    next =>
      cases hk
      exact hsource
    next => exact h k found hk
  · rw [Option.not_isSome_iff_eq_none] at hthere
    rw [source?, putSource, getElem?_onImporter, hthere] at hk
    cases hk

theorem onward_putSource (i : Nat) (name : String) (source : Source) (s : Session) :
    Onward i s (s.putSource i name source) where
  there := fun hs => by rwa [putSource, getElem?_onImporter, Option.isSome_map]
  loaded := fun k _ hk => (loaded?_putSource i name k source s).trans hk
  hooks := by
    simp only [hooks_putSource, List.prefix_rfl]

/-- A hook is installed behind all others, unless there is one of its identifier. -/
theorem installHook_cases (i : Nat) (hook : Hook) (s : Session) :
    (s.installHook i hook).2 = s ∨
      (s.installHook i hook).2 =
          s.onImporter i (fun imp => { imp with hooks := imp.hooks ++ [hook] }) ∧
        (s.importers[i]?).isSome ∧ hook.id ∉ (s.hooks i).map Hook.id := by
  unfold installHook
  cases himp : s.importers[i]? with
  | none => exact .inl rfl
  | some imp =>
    dsimp only
    split
    next => exact .inl rfl
    next hany =>
      refine .inr ⟨rfl, rfl, ?_⟩
      rw [hooks, himp]
      simpa using hany

/-- Installing a hook keeps the hooks that there are, and their identifiers distinct. -/
theorem installHook_spec (i : Nat) (hook : Hook) (s : Session) :
    Onward i s (s.installHook i hook).2 ∧ (s.Plain i → (s.installHook i hook).2.Plain i) ∧
      (s.DistinctHooks i → (s.installHook i hook).2.DistinctHooks i) ∧
      (s.installHook i hook).2.sightings = s.sightings := by
  rcases installHook_cases i hook s with heq | ⟨heq, hthere, hnew⟩
  · rw [heq]
    exact ⟨.refl s, id, id, rfl⟩
  · obtain ⟨imp, himp⟩ := Option.isSome_iff_exists.mp hthere
    let hooked (imp : Importer) : Importer := { imp with hooks := imp.hooks ++ [hook] }
    have hfound : (s.onImporter i hooked).importers[i]? = some (hooked imp) := by
      rw [getElem?_onImporter, himp, Option.map_some]
    have hhooks : (s.onImporter i hooked).hooks i = s.hooks i ++ [hook] := by
      rw [hooks, hooks, hfound, himp]
      rfl
    rw [heq]
    refine ⟨⟨fun _ => ?_, fun k m hk => ?_, ?_⟩, fun hplain k source hk => ?_, fun hs => ?_, rfl⟩
    · rw [hfound, Option.isSome_some]
    · rw [loaded?, hfound]
      rw [loaded?, himp] at hk
      exact hk
    · rw [hhooks]
      exact List.prefix_append _ _
    · rw [source?, hfound] at hk
      refine hplain k source ?_
      rw [source?, himp]
      exact hk
    · rw [DistinctHooks, hhooks, List.map_append, List.map_singleton]
      refine List.nodup_append.mpr ⟨hs, by simp, fun id hid id' hid' => ?_⟩
      rw [List.mem_singleton.mp hid']
      exact fun he => hnew (he ▸ hid)

/-- What a request does keeps to the rules of imports. -/
theorem stretch_perform (hplain : s.Plain i) (hids : s.DistinctHooks i) {r : Request}
    (hr : r.Importing) :
    Stretch (Onward i) i s (r.perform i s) (r.endings i s) ∧ (r.perform i s).Plain i ∧
      (r.perform i s).DistinctHooks i := by
  have hput : ∀ name source, (s.putSource i name source).DistinctHooks i := by
    intro name source
    rw [DistinctHooks, hooks_putSource]
    exact hids
  cases r with
  | register m =>
    exact ⟨.nothing (onward_putSource i m.name (.ready m) s) rfl,
      plain_putSource hplain m.name trivial, hput _ _⟩
  | registerLoader name loader =>
    exact ⟨.nothing (onward_putSource i name (.deferred loader 0) s) rfl,
      plain_putSource hplain name hr, hput _ _⟩
  | installHook hook =>
    obtain ⟨honward, hplain', hids', hsightings⟩ := installHook_spec i hook s
    exact ⟨.nothing honward hsightings, hplain' hplain, hids' hids⟩
  | «import» name =>
    obtain ⟨-, hstretch⟩ := sound_importWithin i _ name s hplain (Nat.lt_succ_self _)
    have hhooks : ((Request.import name).perform i s).hooks i = s.hooks i := hstretch.onward.hooks
    refine ⟨hstretch.mono fun _ _ => Later.onward, hstretch.onward.plain hplain, ?_⟩
    rw [DistinctHooks, hhooks]
    exact hids

theorem stretch_performAll (hplain : s.Plain i) (hids : s.DistinctHooks i)
    (hrequests : ∀ r ∈ requests, r.Importing) :
    Stretch (Onward i) i s (performAll i requests s) (endings i requests s) ∧
      (performAll i requests s).Plain i ∧ (performAll i requests s).DistinctHooks i := by
  induction requests generalizing s with
  | nil => exact ⟨.nothing (.refl s) rfl, hplain, hids⟩
  | cons r rest ih =>
    obtain ⟨hr, hrest⟩ := List.forall_mem_cons.mp hrequests
    obtain ⟨hfirst, hplain, hids⟩ := stretch_perform hplain hids hr
    obtain ⟨hmore, hend⟩ := ih hplain hids hrest
    exact ⟨hfirst.trans (fun _ _ _ => Onward.trans) (fun _ _ => id) hmore, hend⟩

theorem performAll_append (i : Nat) (earlier later : List Request) (s : Session) :
    performAll i (earlier ++ later) s = performAll i later (performAll i earlier s) :=
  List.foldl_append

/-- An import that ends is the last one that ends in it. -/
theorem exists_ending (i : Nat) (name : String) (s : Session)
    (h : (importModule i name s).1.Ends) :
    ∃ inner e, (Request.import name).endings i s = inner ++ [e] ∧ e.name = name ∧
      e.before = s ∧ importModule i name s = (.ofExcept e.result, e.after) := by
  rw [importModule_apply, importWithin_succ] at h ⊢
  simp only [Request.endings, Log.ofImport]
  generalize find (importWithin (s.weight i) i) i name s = search at h ⊢
  rcases search with ⟨m | cause | p | _, t⟩
  · exact ⟨_, _, rfl, rfl, rfl, rfl⟩
  · exact ⟨_, _, rfl, rfl, rfl, rfl⟩
  · exact h.elim
  · exact h.elim

/-- What holds of the imports that requests to an importer lead to. -/
structure CachesImports (i : Nat) (requests : List Request) (s : Session) : Prop where
  /-- Each import that is asked for returns or errs. -/
  ends : ∀ earlier name later, requests = earlier ++ .import name :: later →
    ∃ inner e, (Request.import name).endings i (performAll i earlier s) = inner ++ [e] ∧
      e.name = name ∧ e.before = performAll i earlier s ∧
      importModule i name e.before = (.ofExcept e.result, e.after)
  /-- Once an import of a name has succeeded, every later one finds the same module loaded. -/
  same : (endings i requests s).Pairwise fun e e' => e.name = e'.name → ∀ m, e.result = .ok m →
    e'.result = .ok m ∧ e'.before.loaded? i e.name = some m
  /-- No name is loaded twice. -/
  once : (endings i requests s).Pairwise fun e e' => e.name = e'.name → ¬(e.Loads i ∧ e'.Loads i)
  lawful : ∀ e ∈ endings i requests s, e.Lawful i
  /-- The hooks that see a module have distinct identifiers. -/
  distinct : ∀ e ∈ endings i requests s, e.found.DistinctHooks i
  /-- Hooks write down what they see at the ends of imports, and nothing else. -/
  sightings : (performAll i requests s).sightings =
    s.sightings ++ (endings i requests s).flatMap (Ending.sightings i)
  hooks : (performAll i requests s).DistinctHooks i
  /-- A hook that is installed stays where it is. -/
  stays : ∀ earlier later, requests = earlier ++ later →
    (performAll i earlier s).hooks i <+: (performAll i requests s).hooks i

/-- Imports are cached and seen by hooks over whole runs. Whatever is asked of an importer whose
loaders only import, in whatever order, and however imports nest or go in circles: each import ends
and is lawful by what it finds; what is loaded once is found ever after, and never loaded again;
the hooks see each import that succeeds, and no other; and of two hooks with one identifier the
first one stays alone. -/
theorem caches_imports (hplain : s.Plain i) (hids : s.DistinctHooks i)
    (hrequests : ∀ r ∈ requests, r.Importing) : CachesImports i requests s := by
  obtain ⟨hstretch, -, hend⟩ := stretch_performAll hplain hids hrequests
  refine ⟨fun earlier name later hsplit => ?_, hstretch.pairwise_same, ?_, hstretch.lawful,
    fun e he => ?_, hstretch.sightings, hend, fun earlier later hsplit => ?_⟩
  · subst hsplit
    obtain ⟨-, hplain, hids⟩ := stretch_performAll hplain hids fun r hr =>
      hrequests r (List.mem_append_left _ hr)
    obtain ⟨hends, -⟩ := sound_importWithin i _ name _ hplain (Nat.lt_succ_self _)
    obtain ⟨inner, e, hlog, hname, hbefore, hrun⟩ := exists_ending i name _ hends
    exact ⟨inner, e, hlog, hname, hbefore, hbefore ▸ hrun⟩
  · refine hstretch.pairwise_same.imp ?_
    rintro e e' hsame hname ⟨⟨-, m, hm⟩, hunloaded, -⟩
    rw [← hname, (hsame hname m hm).2] at hunloaded
    cases hunloaded
  · rw [DistinctHooks, (hstretch.lawful e he).hooks]
    exact hend.sublist ((hstretch.hooks e he).sublist.map Hook.id)
  · subst hsplit
    obtain ⟨-, hplain, hids⟩ := stretch_performAll hplain hids fun r hr =>
      hrequests r (List.mem_append_left _ hr)
    obtain ⟨hmore, -⟩ := stretch_performAll hplain hids fun r hr =>
      hrequests r (List.mem_append_right _ hr)
    rw [performAll_append]
    exact hmore.onward.hooks

/-- A session with an importer that holds nothing. -/
def withImporter : Session := (empty (Disk.empty [])).addImporter.2

end Session

/-- A module that imports itself and another one, which imports it in turn, and that cannot be built
at first; hooks of which two have one identifier; and a module registered when there is one
already. -/
def Request.circular : List Request :=
  let blueprint (name : String) : Blueprint :=
    { name, file := none, definitions := [], bindings := [], readOnly := [] }
  [.installHook (.observer "one"),
    .registerLoader "a"
      (.mk [.attempt "a", .require "b"] 1 "not yet" (.build (blueprint "a"))),
    .registerLoader "b" (.mk [.attempt "a"] 0 "" (.build (blueprint "b"))),
    .import "a",
    .installHook (.observer "one"),
    .installHook (.observer "two"),
    .import "a",
    .register (.blank "a" none),
    .import "a"]

theorem Session.caches_imports_circular :
    CachesImports 0 Request.circular withImporter ∧
      (endings 0 Request.circular withImporter).map (fun e => (e.name, e.result.toOption)) =
        [("a", none), ("a", none), ("b", some 0), ("a", none), ("a", none), ("b", some 0),
          ("a", some 1), ("a", some 1)] ∧
      (performAll 0 Request.circular withImporter).sightings =
        [("one", "b"), ("one", "b"), ("two", "b"), ("one", "a"), ("two", "a"), ("one", "a"),
          ("two", "a")] := by
  have hplain : withImporter.Plain 0 := fun _ _ h => nomatch h
  have hids : withImporter.DistinctHooks 0 := .nil
  have hrequests : ∀ r ∈ Request.circular, r.Importing := by
    simp [Request.circular, Request.Importing, Loader.Importing, AllImporting, LoadStep.Importing]
  exact ⟨Session.caches_imports hplain hids hrequests, by decide +kernel, by decide +kernel⟩

end CallSampler
