import CallSampler.Proofs.Import.Loads
import CallSampler.Proofs.Import.Requests

/-!
# What imports do to registrations

An import may run many loaders, which may register anything, and it may fail or panic anywhere. What
was loaded before stays loaded. The latest registration of a name is held on to as long as no older
one comes back over it (`UpToDate`): it is available, or the name is loaded from it, or a load has
taken it that did not come to its end (`Registry.Path.held`). A loader that errs gives back what its
load took. One that panics does not, and neither do the loads around it: their names are then
neither loaded nor available (`import_keeps_registrations`).
-/

namespace CallSampler

/-- A source as it was when it was registered. -/
def Source.fresh : Source → Source
  | .ready m => .ready m
  | .deferred loader _ => .deferred loader 0

theorem Source.fresh_rerun (source : Source) : source.rerun.fresh = source.fresh := by
  cases source <;> rfl

/-! ## Registrations -/

def LoadEvent.latest (name : String) : LoadEvent → Option Source → Option Source
  | .registered k source, last => if k = name then some source else last
  | _, last => last

/-- The latest registration of a name, which had another one before. -/
def latestOf (name : String) (before : Option Source) (events : List LoadEvent) : Option Source :=
  events.foldl (fun last e => e.latest name last) before

/-- A load of the name comes to its end, whose source is given. -/
inductive LoadEvent.Closes (name : String) (source : Source) : LoadEvent → Prop
  | kept (m : Nat) : Closes name source (.kept name source m)
  | putBack : Closes name source (.putBack name source)

/-- A load of the name that comes to its end is one of the latest registration. -/
def UpToDate (name : String) (before : Option Source) (events : List LoadEvent) : Prop :=
  ∀ earlier e later source, events = earlier ++ e :: later → e.Closes name source →
    (latestOf name before earlier).map Source.fresh = some source.fresh

section Events

variable {name : String} {before : Option Source} {events more : List LoadEvent} {e : LoadEvent}

theorem latestOf_append_singleton (name : String) (before : Option Source)
    (events : List LoadEvent) (e : LoadEvent) :
    latestOf name before (events ++ [e]) = e.latest name (latestOf name before events) := by
  rw [latestOf, List.foldl_append]
  rfl

theorem LoadEvent.latest_of_ne (h : ∀ source, e ≠ .registered name source) (last : Option Source) :
    e.latest name last = last := by
  cases e with
  | registered k source =>
    rw [latest, if_neg]
    rintro rfl
    exact h source rfl
  | _ => rfl

theorem UpToDate.of_append (h : UpToDate name before (events ++ more)) :
    UpToDate name before events := by
  intro earlier e later source heq
  refine h earlier e (later ++ more) source ?_
  rw [heq, List.append_assoc, List.cons_append]

end Events

/-! ## Registrations that are held -/

namespace Registry

variable {r r₁ r' : Registry} {events : List LoadEvent} {e : LoadEvent} {name : String}
  {source : Source}

/-- What was registered is not lost: it is available, or the name is loaded from it, or its load is
in progress. -/
inductive Held (name : String) (source : Source) (events : List LoadEvent) (r : Registry) : Prop
  | available {now : Source} (there : r.source name = some now) (same : now.fresh = source.fresh)
  | loaded {taken : Source} {m : Nat} (made : .kept name taken m ∈ events)
    (there : r.loaded name = some m) (same : taken.fresh = source.fresh)
  | loading {taken : Source} (there : (name, taken) ∈ r.loading)
    (same : taken.fresh = source.fresh)

/-- A registration is held on to unless a newer one comes or an older one comes back. -/
theorem Held.step (h : Held name source events r) (hstep : Step r e r')
    (hfree : ∀ other, e ≠ .registered name other)
    (hcloses : ∀ taken, e.Closes name taken → taken.fresh = source.fresh) :
    Held name source (events ++ [e]) r' := by
  have hmade : ∀ {taken m}, .kept name taken m ∈ events → .kept name taken m ∈ events ++ [e] :=
    fun hmem => List.mem_append_left _ hmem
  cases hstep with
  | found | missing =>
    cases h with
    | available there same => exact .available there same
    | loaded made there same => exact .loaded (hmade made) there same
    | loading there same => exact .loading there same
  | @began k taken hloaded hsource =>
    cases h with
    | available there same =>
      by_cases hk : name = k
      · subst hk
        cases hsource.symm.trans there
        exact .loading List.mem_cons_self same
      · exact .available ((Function.update_of_ne hk _ _).trans there) same
    | loaded made there same => exact .loaded (hmade made) there same
    | loading there same => exact .loading (List.mem_cons_of_mem _ there) same
  | registered k other =>
    have hk : name ≠ k := by
      rintro rfl
      exact hfree other rfl
    cases h with
    | available there same => exact .available ((Function.update_of_ne hk _ _).trans there) same
    | loaded made there same => exact .loaded (hmade made) there same
    | loading there same => exact .loading there same
  | @kept k taken loading m hr =>
    by_cases hk : name = k
    · subst hk
      exact .loaded (List.mem_append_right _ (List.mem_singleton_self _))
        (Function.update_self ..) (hcloses taken (.kept m))
    · cases h with
      | available there same => exact .available there same
      | loaded made there same =>
        exact .loaded (hmade made) ((Function.update_of_ne hk _ _).trans there) same
      | loading there same =>
        rw [hr] at there
        refine .loading ((List.mem_cons.mp there).resolve_left fun heq => hk ?_) same
        exact congrArg Prod.fst heq
  | @putBack k taken loading hr =>
    by_cases hk : name = k
    · subst hk
      exact .available (Function.update_self ..)
        (taken.fresh_rerun.trans (hcloses taken .putBack))
    · cases h with
      | available there same => exact .available ((Function.update_of_ne hk _ _).trans there) same
      | loaded made there same => exact .loaded (hmade made) there same
      | loading there same =>
        rw [hr] at there
        refine .loading ((List.mem_cons.mp there).resolve_left fun heq => hk ?_) same
        exact congrArg Prod.fst heq

/-- As long as no older registration comes back, the latest one is held on to. -/
theorem Path.held (h : Path r events r') (hdate : UpToDate name (r.source name) events)
    (hlatest : latestOf name (r.source name) events = some source) :
    Held name source events r' := by
  induction h generalizing source with
  | nil => exact .available hlatest rfl
  | @snoc events e r₁ r' before last ih =>
    rw [latestOf_append_singleton] at hlatest
    by_cases hnew : ∃ other, e = .registered name other
    · obtain ⟨other, rfl⟩ := hnew
      rw [LoadEvent.latest, if_pos rfl] at hlatest
      cases hlatest
      cases last
      exact .available (Function.update_self ..) rfl
    · have hfree : ∀ other, e ≠ .registered name other := fun other he => hnew ⟨other, he⟩
      rw [LoadEvent.latest_of_ne hfree] at hlatest
      refine (ih hdate.of_append hlatest).step last hfree fun taken hcloses => ?_
      have hsame := hdate events e [] taken rfl hcloses
      rw [hlatest, Option.map_some] at hsame
      exact (Option.some.inj hsame).symm

/-! ### Registrations that are not disturbed -/

/-- Whatever is available under the name, or taken by a load of it, is the latest registration. -/
def Latest (name : String) (latest : Option Source) (r : Registry) : Prop :=
  ∀ taken, r.source name = some taken ∨ (name, taken) ∈ r.loading →
    latest.map Source.fresh = some taken.fresh

theorem Latest.step {latest : Option Source} (h : Latest name latest r) (hstep : Step r e r')
    (hfree : ∀ other, e = .registered name other → name ∉ Entries.keys r.loading) :
    Latest name (e.latest name latest) r' := by
  cases hstep with
  | found | missing => exact h
  | @began k source hloaded hsource =>
    rintro taken (htaken | htaken)
    · by_cases hk : name = k
      · subst hk
        cases htaken.symm.trans (Function.update_self ..)
      · exact h taken (.inl ((Function.update_of_ne hk _ _).symm.trans htaken))
    · rcases List.mem_cons.mp htaken with heq | htaken
      · cases heq
        exact h source (.inl hsource)
      · exact h taken (.inr htaken)
  | registered k source =>
    by_cases hk : name = k
    · subst hk
      rw [LoadEvent.latest, if_pos rfl]
      rintro taken (htaken | htaken)
      · cases htaken.symm.trans (Function.update_self ..)
        rfl
      · exact absurd (Entries.mem_keys_of_mem htaken) (hfree source rfl)
    · rw [LoadEvent.latest, if_neg (Ne.symm hk)]
      refine fun taken htaken => h taken (htaken.imp_left fun hsource => ?_)
      exact (Function.update_of_ne hk _ _).symm.trans hsource
  | kept m hr =>
    exact fun taken htaken =>
      h taken (htaken.imp_right fun hmem => hr ▸ List.mem_cons_of_mem _ hmem)
  | @putBack k source loading hr =>
    rintro taken (htaken | htaken)
    · by_cases hk : name = k
      · subst hk
        cases htaken.symm.trans (Function.update_self ..)
        rw [source.fresh_rerun]
        exact h source (.inr (hr ▸ List.mem_cons_self))
      · exact h taken (.inl ((Function.update_of_ne hk _ _).symm.trans htaken))
    · exact h taken (.inr (hr ▸ List.mem_cons_of_mem _ htaken))

theorem Path.latest (h : Path r events r') (hr : r.loading = [])
    (hname : Undisturbed name events) :
    Latest name (latestOf name (r.source name) events) r' := by
  induction h with
  | nil =>
    rintro taken (htaken | htaken)
    · rw [latestOf, List.foldl_nil, htaken, Option.map_some]
    · rw [hr] at htaken
      cases htaken
  | snoc before last ih =>
    rw [latestOf_append_singleton]
    refine (ih hname.of_append).step last fun other he => ?_
    subst he
    rw [before.loading_eq hr]
    exact hname _ other [] rfl

/-- A name that is not registered while it is being loaded is up to date. -/
theorem Path.upToDate (h : Path r events r') (hr : r.loading = [])
    (hname : Undisturbed name events) : UpToDate name (r.source name) events := by
  rintro earlier e later source rfl hcloses
  obtain ⟨r₁, hearlier, hlater⟩ := h.split
  obtain ⟨r₂, hstep, -⟩ := hlater.exists_step
  have hlatest := hearlier.latest hr hname.of_append
  refine hlatest source (.inr ?_)
  cases hcloses with
  | kept m =>
    cases hstep with
    | kept _ hr₁ => exact hr₁ ▸ List.mem_cons_self
  | putBack =>
    cases hstep with
    | putBack hr₁ => exact hr₁ ▸ List.mem_cons_self

/-! ### What is loaded -/

theorem Path.loaded (h : Path r events r') (hr : r.loading = []) {m : Nat}
    (hm : r.loaded name = some m) : r'.loaded name = some m ∧ name ∉ Entries.keys r'.loading := by
  induction h with
  | nil => exact ⟨hm, by simp [hr]⟩
  | snoc _ last ih =>
    obtain ⟨hloaded, hidle⟩ := ih
    cases last with
    | found | missing | registered => exact ⟨hloaded, hidle⟩
    | @began k source hnone hsource =>
      refine ⟨hloaded, fun hmem => ?_⟩
      rcases List.mem_cons.mp hmem with hk | hmem
      · rw [hk, hnone] at hloaded
        cases hloaded
      · exact hidle hmem
    | kept m' hr₁ =>
      rw [hr₁, Entries.keys_cons, List.mem_cons, not_or] at hidle
      exact ⟨(Function.update_of_ne hidle.1 _ _).trans hloaded, hidle.2⟩
    | putBack hr₁ =>
      rw [hr₁, Entries.keys_cons, List.mem_cons, not_or] at hidle
      exact ⟨hloaded, hidle.2⟩

end Registry

/-! ## Imports and registrations -/

/-- What an import leaves of what an importer held and of what its loaders registered. -/
structure KeepsRegistrations (i : Nat) (s t : Session) (ended : Prop) (events : List LoadEvent) :
    Prop where
  /-- What was loaded before is loaded as the same module. -/
  loaded : ∀ name m, s.loaded? i name = some m → t.loaded? i name = some m
  /-- The latest registration is held on to, unless an older one came back over it. -/
  held : ∀ name source, UpToDate name (s.source? i name) events →
    latestOf name (s.source? i name) events = some source →
      Registry.Held name source events (t.registry i (inProgress events))
  /-- None comes back over a registration that was not made while the name was being loaded. -/
  upToDate : ∀ name, Registry.Undisturbed name events →
    UpToDate name (s.source? i name) events
  /-- Only a run that was cut short leaves loads in progress. -/
  closed : ended → inProgress events = []
  /-- What such a load had taken is lost. -/
  lost : ∀ name, Registry.Undisturbed name events → name ∈ Entries.keys (inProgress events) →
    t.Absent i name

namespace Session

variable {i : Nat} {s : Session}

/-- However an import ends, and whatever its loaders register, import or run into, all that was
loaded stays loaded, and the latest registration of a name stays available or is what the name is
loaded from, unless a load of it was in progress: one that was when a loader panicked takes the
registration with it, and one that errs puts an older registration back over those that were made
meanwhile. -/
theorem import_keeps_registrations (hthere : (s.importers[i]?).isSome) (fuel : Nat)
    (name : String) :
    KeepsRegistrations i s (importWithin fuel i name s).2 (importWithin fuel i name s).1.Ends
      (Trace.ofImport fuel i name s) := by
  have htraces := traced_importWithin True i fuel name s hthere (.inl trivial)
  obtain ⟨opened, hpath, hclosed⟩ := htraces.path []
  have hopened : opened ++ [] = inProgress (Trace.ofImport fuel i name s) := hpath.loading_eq rfl
  rw [hopened] at hpath
  rw [List.append_nil] at hopened
  exact {
    loaded := fun k m hm => (hpath.loaded rfl hm).1
    held := fun k source hdate hlatest => hpath.held hdate hlatest
    upToDate := fun k hk => hpath.upToDate rfl hk
    closed := fun hended => hopened ▸ hclosed hended
    lost := fun k hk hmem => ⟨(hpath.away rfl hk).source hmem, (hpath.away rfl hk).loaded hmem⟩ }

/-- A module that registers another one and then imports one that cannot be built at first; one that
imports one that panics; and one that registers another module under its own name and then errs. -/
def brittle : Session :=
  let blueprint (name : String) : Blueprint :=
    { name, file := none, definitions := [], bindings := [], readOnly := [] }
  let loader (steps : List LoadStep) (failures : Nat) (name : String) : Loader :=
    .mk steps failures "not yet" (.build (blueprint name))
  ((((withImporter.registerLoader 0 "a" (loader [.offer (blueprint "n"), .require "b"] 0 "a")
    ).registerLoader 0 "b" (loader [.attempt "n"] 1 "b")
    ).registerLoader 0 "c" (loader [.attempt "n", .attempt "d"] 0 "c")
    ).registerLoader 0 "d" (.mk [] 0 "" (.panic (.text "oh")))
    ).registerLoader 0 "e" (loader [.offer (blueprint "e")] 1 "e")

theorem import_keeps_registrations_brittle :
    (brittle.importers[0]?).isSome ∧
      KeepsRegistrations 0 brittle (importModule 0 "a" brittle).2
        (importModule 0 "a" brittle).1.Ends (Trace.ofImport (brittle.weight 0 + 1) 0 "a" brittle) ∧
      ((importModule 0 "a" brittle).2.source? 0 "a").isSome ∧
      ((importModule 0 "a" brittle).2.source? 0 "b").isSome ∧
      (importModule 0 "a" brittle).2.loaded? 0 "n" = some 0 ∧
      KeepsRegistrations 0 brittle (importModule 0 "c" brittle).2
        (importModule 0 "c" brittle).1.Ends (Trace.ofImport (brittle.weight 0 + 1) 0 "c" brittle) ∧
      Entries.keys (inProgress (Trace.ofImport (brittle.weight 0 + 1) 0 "c" brittle)) =
        ["d", "c"] :=
  ⟨rfl, import_keeps_registrations rfl (brittle.weight 0 + 1) "a", by decide +kernel,
    by decide +kernel, by decide +kernel,
    import_keeps_registrations rfl (brittle.weight 0 + 1) "c", by decide +kernel⟩

/-- A loader that panics takes its registration with it and that of the module that imported it, and
one that errs overwrites what it registered under its own name. -/
theorem import_loses_registrations :
    ((brittle.source? 0 "c").isSome ∧ (brittle.source? 0 "d").isSome ∧
        (importModule 0 "c" brittle).1 = .panic (.text "oh") ∧
        (importModule 0 "c" brittle).2.Absent 0 "c" ∧
        (importModule 0 "c" brittle).2.Absent 0 "d" ∧
        (importModule 0 "d" (importModule 0 "c" brittle).2).1 = .error (.notFound "d")) ∧
      ∃ cause ready loader,
        (importModule 0 "e" brittle).1 = .error cause ∧
        latestOf "e" (brittle.source? 0 "e")
          (Trace.ofImport (brittle.weight 0 + 1) 0 "e" brittle) = some (.ready ready) ∧
        (importModule 0 "e" brittle).2.source? 0 "e" = some (.deferred loader 1) ∧
        (importModule 0 "e" brittle).2.loaded? 0 "e" = none :=
  ⟨⟨rfl, rfl, rfl, ⟨rfl, rfl⟩, ⟨rfl, rfl⟩, rfl⟩, _, _, _, rfl, rfl, rfl, rfl⟩

end Session

end CallSampler
