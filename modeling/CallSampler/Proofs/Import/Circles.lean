import CallSampler.Proofs.Import.Loads
import CallSampler.Proofs.Import.Requests
import Mathlib.Data.List.Nodup
import Mathlib.Data.List.Perm.Subperm

/-!
# Imports in circles

Where loaders only import, a name is out of the registry for as long as it is being loaded, and
nothing makes it available meanwhile. So no two loads of one name are in progress at a moment, no
more loads are in progress than there are sources, and an import that goes in a circle finds
nothing (`Registry.Path.apart`). Loads that fail put their sources back, and so the registry shrinks
and grows again. What ends the run is that each load leaves less to the imports inside it: the
weight of the sources is fuel enough (`imports_end`), and more fuel changes nothing
(`importWithin_of_le`).
-/

namespace CallSampler

/-! ## More fuel -/

/-- A run that comes to what another one comes to, unless the fuel of that one does not last. -/
def Action.Extends {ε α : Type} (x y : Action ε α) : Prop :=
  ∀ s, (x s).1 ≠ .exhausted → y s = x s

namespace Session

open CallSampler.Action

variable {ε ε' α β : Type} {i fuel fuel' : Nat} {name : String} {s : Session}

theorem extends_refl (x : Action ε α) : Extends x x := fun _ _ => rfl

theorem eq_of_exhausted {x : Outcome ε α × Session} (h : x.1 = .exhausted) :
    ∃ t, x = (.exhausted, t) := ⟨x.2, Prod.ext h rfl⟩

/-- What is made of a run that lasted is made of one with more fuel. -/
theorem extends_answering {x y : Action ε α} {x' y' : Action ε' β} (h : Extends x y)
    (hsame : ∀ s, y s = x s → y' s = x' s)
    (hexhausted : ∀ s t, x s = (.exhausted, t) → (x' s).1 = .exhausted) : Extends x' y' := by
  intro s hlasts
  refine hsame s (h s fun hx => hlasts ?_)
  obtain ⟨t, ht⟩ := eq_of_exhausted hx
  exact hexhausted s t ht

theorem extends_bind {x y : Action ε α} {k l : α → Action ε β} (h : Extends x y)
    (hk : ∀ a, Extends (k a) (l a)) : Extends (x >>= k) (y >>= l) := by
  intro s hlasts
  rw [Run.bind_apply] at hlasts
  rw [Run.bind_apply, Run.bind_apply]
  rcases hx : x s with ⟨a | e | p | _, t⟩ <;> rw [hx] at hlasts
  · rw [h s (by simp [hx]), hx]
    exact hk a t hlasts
  · rw [h s (by simp [hx]), hx]
  · rw [h s (by simp [hx]), hx]
  · exact absurd rfl hlasts

section Loading

variable {importBy importMore : String → Action ImportError Nat}

theorem extends_loadTest (hi : ∀ name, Extends (importBy name) (importMore name)) (run : Nat)
    (test : LoadTest) : Extends (loadTest importBy run test) (loadTest importMore run test) := by
  cases test with
  | imports name =>
    refine extends_answering (hi name) (fun s h => ?_) fun s t h => ?_
    all_goals simp only [loadTest, h, Outcome.map, Outcome.mapError]
  | early runs => exact extends_refl _
  | holds name => exact extends_refl _

mutual

theorem extends_loadStep (hi : ∀ name, Extends (importBy name) (importMore name)) (run : Nat) :
    ∀ step : LoadStep, Extends (loadStep importBy i run step) (loadStep importMore i run step)
  | .require name => by
    refine extends_answering (hi name) (fun s h => ?_) fun s t h => ?_
    all_goals simp only [loadStep, h, Outcome.map, Outcome.mapError]
  | .attempt name => by
    refine extends_answering (hi name) (fun s h => ?_) fun s t h => ?_
    all_goals simp only [loadStep, h, Outcome.map, Outcome.mapError]
  | .branch test yes no => by
    rw [loadStep, loadStep]
    refine extends_bind (extends_loadTest hi run test) fun b => ?_
    cases b with
    | true => exact extends_loadSteps hi run yes
    | false => exact extends_loadSteps hi run no
  | .fail _ => by
    rw [loadStep, loadStep]
    exact extends_refl _
  | .offer _ => by
    rw [loadStep, loadStep]
    exact extends_refl _
  | .offerLoader _ _ => by
    rw [loadStep, loadStep]
    exact extends_refl _

theorem extends_loadSteps (hi : ∀ name, Extends (importBy name) (importMore name)) (run : Nat) :
    ∀ steps : List LoadStep,
      Extends (loadSteps importBy i run steps) (loadSteps importMore i run steps)
  | [] => by
    rw [loadSteps, loadSteps]
    exact extends_refl _
  | step :: rest => by
    rw [loadSteps, loadSteps]
    exact extends_bind (extends_loadStep hi run step) fun _ => extends_loadSteps hi run rest

end

theorem extends_runLoader (hi : ∀ name, Extends (importBy name) (importMore name)) (run : Nat)
    (loader : Loader) :
    Extends (runLoader importBy i run loader) (runLoader importMore i run loader) := by
  cases loader with
  | mk steps failures complaint finish =>
    simp only [runLoader]
    exact extends_bind (extends_loadSteps hi run steps) fun _ => extends_refl _

theorem extends_find (hi : ∀ name, Extends (importBy name) (importMore name)) (name : String) :
    Extends (find importBy i name) (find importMore i name) := by
  intro s hlasts
  unfold find load at hlasts ⊢
  cases hloaded : s.loaded? i name with
  | some m => rfl
  | none =>
    simp only [hloaded, takeSource_eq] at hlasts ⊢
    cases hsource : s.source? i name with
    | none => rfl
    | some source =>
      cases source with
      | ready md => rfl
      | deferred loader runs =>
        simp only [hsource] at hlasts ⊢
        rw [extends_runLoader hi (runs + 1) loader (s.dropSource i name) fun hx => ?_]
        obtain ⟨t, ht⟩ := eq_of_exhausted hx
        rw [ht] at hlasts
        exact hlasts rfl

end Loading

theorem extends_importWithin (i fuel : Nat) (name : String) :
    Extends (importWithin fuel i name) (importWithin (fuel + 1) i name) := by
  induction fuel generalizing name with
  | zero => exact fun _ hlasts => absurd rfl hlasts
  | succ fuel ih => exact extends_bind (extends_find ih name) fun _ => extends_refl _

/-- An import that its fuel lasted for comes to the same with any more. -/
theorem importWithin_of_le (h : fuel ≤ fuel')
    (hlasts : (importWithin fuel i name s).1 ≠ .exhausted) :
    importWithin fuel' i name s = importWithin fuel i name s := by
  induction h with
  | refl => rfl
  | step _ ih =>
    have hmore := extends_importWithin i _ name s (ih ▸ hlasts)
    rw [hmore, ih]

end Session

/-! ## Loads where nothing is registered -/

/-- At every moment of a trace, the loads in progress are of different names, all among those that
are given. -/
structure LoadsApart (names : List String) (events : List LoadEvent) : Prop where
  apart : ∀ before after, events = before ++ after → (Entries.keys (inProgress before)).Nodup
  among : ∀ before after, events = before ++ after → Entries.keys (inProgress before) ⊆ names
  nested : ∀ before after, events = before ++ after → (inProgress before).length ≤ names.length
  /-- Inside the load of a name no load of it begins. -/
  unbegun : ∀ before name source after, events = before ++ .began name source :: after →
    name ∉ Entries.keys (inProgress before)
  /-- An import inside the load of its name finds nothing. -/
  unfound : ∀ before name result after, events = before ++ .answered name result :: after →
    name ∈ Entries.keys (inProgress before) → result = .error (.notFound name)
  closed : inProgress events = []

namespace Registry

variable {r r₁ r' : Registry} {events : List LoadEvent} {e : LoadEvent} {name : String}
  {names : List String}

/-- A name is available or being loaded. -/
def Known (name : String) (r : Registry) : Prop :=
  (r.source name).isSome ∨ name ∈ Entries.keys r.loading

/-- Only registering makes a name known. -/
theorem Known.of_step (h : Known name r') (hstep : Step r e r')
    (hfree : ∀ name source, e ≠ .registered name source) : Known name r := by
  cases hstep with
  | found | missing => exact h
  | @began k source hloaded hsource =>
    by_cases hk : name = k
    · subst hk
      exact .inl (hsource ▸ rfl)
    · refine h.imp (fun hsome => ?_) fun hmem => (List.mem_cons.mp hmem).resolve_left hk
      dsimp only at hsome
      rwa [Function.update_of_ne hk] at hsome
  | registered k source => exact absurd rfl (hfree k source)
  | kept m hr => exact h.imp_right fun hmem => hr ▸ List.mem_cons_of_mem _ hmem
  | @putBack k source loading hr =>
    by_cases hk : name = k
    · subst hk
      exact .inr (hr ▸ List.mem_cons_self)
    · refine h.imp (fun hsome => ?_) fun hmem => hr ▸ List.mem_cons_of_mem _ hmem
      dsimp only at hsome
      rwa [Function.update_of_ne hk] at hsome

theorem Path.known (h : Path r events r') (hname : Known name r')
    (hfree : ∀ name source, .registered name source ∉ events) : Known name r := by
  induction h with
  | nil => exact hname
  | snoc _ last ih =>
    refine ih (hname.of_step last fun k source he => ?_) fun k source hmem =>
      hfree k source (List.mem_append_left _ hmem)
    exact hfree k source (he ▸ List.mem_append_right _ (List.mem_singleton_self _))

/-- Where nothing is registered, loads stay apart. -/
theorem Path.apart (h : Path r events r') (hr : r.loading = []) (hr' : r'.loading = [])
    (hfree : ∀ name source, .registered name source ∉ events)
    (hnames : ∀ name, (r.source name).isSome → name ∈ names) : LoadsApart names events := by
  have hundisturbed : ∀ name, Undisturbed name events := by
    rintro name before source after rfl
    exact absurd (List.mem_append_right _ List.mem_cons_self) (hfree name source)
  -- at each moment, whatever comes after it
  have hmoment : ∀ before after, events = before ++ after →
      ∃ r₁, r₁.loading = inProgress before ∧ (∀ name, Away name r₁) ∧ Path r before r₁ ∧
        Path r₁ after r' := by
    rintro before after rfl
    obtain ⟨r₁, hbefore, hafter⟩ := h.split
    exact ⟨r₁, hbefore.loading_eq hr, fun name =>
      hbefore.away hr (hundisturbed name).of_append, hbefore, hafter⟩
  have hapart : ∀ before after, events = before ++ after →
      (Entries.keys (inProgress before)).Nodup := by
    intro before after heq
    obtain ⟨r₁, hloading, haway, -⟩ := hmoment before after heq
    rw [← hloading]
    exact List.nodup_iff_count_le_one.mpr fun name => (haway name).once
  have hamong : ∀ before after, events = before ++ after →
      Entries.keys (inProgress before) ⊆ names := by
    intro before after heq name hmem
    obtain ⟨r₁, hloading, -, hpath, -⟩ := hmoment before after heq
    have hfree' : ∀ name source, .registered name source ∉ before :=
      fun name source hbefore => hfree name source (heq ▸ List.mem_append_left _ hbefore)
    have hknown : Known name r := hpath.known (.inr (hloading ▸ hmem)) hfree'
    exact hnames name (hknown.resolve_right (by simp [hr]))
  refine ⟨hapart, hamong, fun before after heq => ?_, fun before name source after heq hmem => ?_,
    fun before name result after heq hmem => ?_, (h.loading_eq hr).symm.trans hr'⟩
  · have hlength : (Entries.keys (inProgress before)).length ≤ names.length :=
      (List.subperm_of_subset (hapart before after heq) (hamong before after heq)).length_le
    rwa [Entries.keys, List.length_map] at hlength
  · obtain ⟨r₁, hloading, haway, -, hafter⟩ := hmoment before _ heq
    obtain ⟨r₂, hstep, -⟩ := hafter.exists_step
    rw [← hloading] at hmem
    cases hstep with
    | began hloaded hsource =>
      rw [(haway name).source hmem] at hsource
      cases hsource
  · obtain ⟨r₁, hloading, haway, -, hafter⟩ := hmoment before _ heq
    obtain ⟨r₂, hstep, -⟩ := hafter.exists_step
    rw [← hloading] at hmem
    cases hstep with
    | found hfound =>
      rw [(haway name).loaded hmem] at hfound
      cases hfound
    | missing => rfl

end Registry

/-! ## Imports one after the other -/

/-- What happens while names are imported one after the other. -/
def Trace.ofImports (i : Nat) : List String → Trace
  | [] => fun _ => []
  | name :: rest => fun s =>
    Trace.ofImport (s.weight i + 1) i name s ++ ofImports i rest (Session.importModule i name s).2

namespace Session

variable {i : Nat} {s : Session} {names : List String}

/-- Import names one after the other, whatever comes of it. -/
def importAll (i : Nat) (names : List String) (s : Session) : Session :=
  names.foldl (fun s name => (importModule i name s).2) s

theorem ends_importModule (h : s.Plain i) (name : String) : (importModule i name s).1.Ends :=
  (sound_importWithin i _ name s h (Nat.lt_succ_self _)).1

theorem traces_importAll (hthere : (s.importers[i]?).isSome) (h : s.Plain i)
    (names : List String) :
    Traces False i s (importAll i names s) (Trace.ofImports i names s) True := by
  induction names generalizing s with
  | nil => exact .nothing hthere (.inr h)
  | cons name rest ih =>
    have hfirst := traced_importWithin False i (s.weight i + 1) name s hthere (.inr h)
    have hends := ends_importModule h name
    rw [← importModule_apply] at hfirst
    exact (hfirst.of_ended fun _ => hends).append
      (ih hfirst.there (hfirst.plain.resolve_left id))

/-- Imports come to an end, also where they go in circles. Whatever names an importer is asked for,
whose loaders only import: every import returns or errs, with any fuel beyond the weight of the
sources in the same way; at no moment are two loads of one name in progress, or more loads than
there were sources; and an import inside the load of its own name finds nothing. -/
theorem imports_end {imp : Importer} (himp : s.importers[i]? = some imp) (hplain : s.Plain i)
    (names : List String) :
    (∀ earlier name later, names = earlier ++ name :: later →
      (importModule i name (importAll i earlier s)).1.Ends ∧
        ∀ fuel, (importAll i earlier s).weight i < fuel →
          importWithin fuel i name (importAll i earlier s) =
            importModule i name (importAll i earlier s)) ∧
    LoadsApart (Entries.keys imp.sources) (Trace.ofImports i names s) := by
  have hthere : (s.importers[i]?).isSome := himp ▸ rfl
  refine ⟨fun earlier name later _ => ?_, ?_⟩
  · have hlater := (traces_importAll hthere hplain earlier).plain.resolve_left id
    have hends := ends_importModule hlater name
    refine ⟨hends, fun fuel hfuel => ?_⟩
    rw [importModule_apply] at hends ⊢
    refine importWithin_of_le hfuel fun hexhausted => ?_
    rw [hexhausted] at hends
    exact hends
  · have htraces := traces_importAll hthere hplain names
    obtain ⟨_, hpath, hclosed⟩ := htraces.path []
    obtain rfl := hclosed trivial
    refine hpath.apart rfl rfl htraces.offered fun name hname => ?_
    obtain ⟨source, hsource⟩ := Option.isSome_iff_exists.mp hname
    have hget : Entries.get? name imp.sources = some source := by
      rw [← hsource]
      simp only [registry, source?, himp, Option.bind_some]
    exact Entries.mem_keys_of_mem (Entries.mem_of_find? hget)

/-- Three modules of which each imports the next one, and the last one the first. The second cannot
be built at first. -/
def ring : Session :=
  let finish (name : String) : Finish :=
    .build { name, file := none, definitions := [], bindings := [], readOnly := [] }
  ((withImporter.registerLoader 0 "a" (.mk [.attempt "a", .attempt "b"] 0 "" (finish "a"))
    ).registerLoader 0 "b" (.mk [.attempt "c", .require "a"] 0 "" (finish "b"))
    ).registerLoader 0 "c" (.mk [.attempt "b", .attempt "a"] 0 "" (finish "c"))

theorem imports_end_ring :
    ring.Plain 0 ∧
      (importModule 0 "b" (importAll 0 ["a"] ring)).1.Ends ∧
      LoadsApart ["a", "b", "c"] (Trace.ofImports 0 ["a", "b"] ring) ∧
      Entries.keys (inProgress ((Trace.ofImports 0 ["a", "b"] ring).take 4)) = ["c", "b", "a"] := by
  have hplain : ring.Plain 0 := by
    have hempty : withImporter.Plain 0 := fun _ _ h => nomatch h
    refine plain_putSource (plain_putSource (plain_putSource hempty "a" ?_) "b" ?_) "c" ?_
    all_goals simp [Source.Importing, Loader.Importing, AllImporting, LoadStep.Importing]
  obtain ⟨hends, happart⟩ := imports_end (s := ring) rfl hplain ["a", "b"]
  exact ⟨hplain, (hends ["a"] "b" [] rfl).1, happart, by decide +kernel⟩

end Session

end CallSampler
