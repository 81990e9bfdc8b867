import CallSampler.Proofs.Import.Registry
import Mathlib.Data.List.Induction
import Mathlib.Logic.Function.Basic

/-!
# Loads in progress

A session does not tell which loads are in progress: their sources are out of the registry, and
nothing else shows. What happens to the registry in a run is read off the run itself, event by event
(`Trace.ofImport`), and the loads in progress at a moment are those that have begun by then and
neither made a module nor erred (`inProgress`). The registry goes from one event to the next by few
rules (`Registry.Step`), and that the run goes by them, whatever its loaders do and however it ends,
is shown by induction on the fuel (`traced_importWithin`). All that is said about loads in progress
follows from the rules.
-/

namespace CallSampler

/-- A source whose loader ran once more. -/
def Source.rerun : Source → Source
  | .ready m => .ready m
  | .deferred loader runs => .deferred loader (runs + 1)

theorem Source.importing_rerun {source : Source} : source.rerun.Importing ↔ source.Importing := by
  cases source <;> exact Iff.rfl

/-! ## Events -/

/-- What happens to the registry of an importer. -/
inductive LoadEvent where
  /-- An import ended without a load. -/
  | answered (name : String) (result : Except ImportError Nat)
  /-- A load took a source out. -/
  | began (name : String) (source : Source)
  | registered (name : String) (source : Source)
  /-- A load made a module from the source that it took. -/
  | kept (name : String) (source : Source) (m : Nat)
  /-- A load erred and put back the source that it took. -/
  | putBack (name : String) (source : Source)

/-- The loads in progress after an event, the innermost first. -/
def LoadEvent.loads : LoadEvent → List (String × Source) → List (String × Source)
  | .began name source, loads => (name, source) :: loads
  | .kept _ _ _, loads => loads.tail
  | .putBack _ _, loads => loads.tail
  | _, loads => loads

/-- The loads in progress after events that began with none, the innermost first. -/
def inProgress (events : List LoadEvent) : List (String × Source) :=
  events.foldl (fun loads e => e.loads loads) []

/-- What happens to the registry in a run from a session on. -/
abbrev Trace : Type := Session → List LoadEvent

namespace Trace

variable {ε α : Type}

/-- What happens in a run and then, if it returns, in what comes after it. -/
def followed (x : Action ε α) (trace : Trace) (next : α → Trace) : Trace := fun s =>
  trace s ++ match x s with
    | (.ok a, s) => next a s
    | _ => []

/-- The end of an import that loads nothing, unless it was cut short. -/
def answer (name : String) : Outcome ImportError Nat → List LoadEvent
  | .ok m => [.answered name (.ok m)]
  | .error cause => [.answered name (.error cause)]
  | _ => []

/-- The end of a load, unless it was cut short. -/
def close (name : String) (source : Source) : Outcome ImportError Nat → List LoadEvent
  | .ok m => [.kept name source m]
  | .error _ => [.putBack name source]
  | _ => []

section

variable (importBy : String → Action ImportError Nat) (trace : String → Trace)

def ofTest : LoadTest → Trace
  | .imports name => trace name
  | .early _ => fun _ => []
  | .holds _ => fun _ => []

mutual

def ofStep (i run : Nat) : LoadStep → Trace
  | .require name => trace name
  | .attempt name => trace name
  | .fail _ => fun _ => []
  | .branch test yes no =>
    followed (Session.loadTest importBy run test) (ofTest trace test) fun b =>
      if b then ofSteps i run yes else ofSteps i run no
  | .offer b => fun s => [.registered (s.build b).1.name (.ready (s.build b).1)]
  | .offerLoader name loader => fun _ => [.registered name (.deferred loader 0)]

def ofSteps (i run : Nat) : List LoadStep → Trace
  | [] => fun _ => []
  | step :: rest =>
    followed (Session.loadStep importBy i run step) (ofStep i run step) fun _ => ofSteps i run rest

end

/-- What happens while the loader of a source runs, if it has one. -/
def ofSource (i : Nat) : Source → Trace
  | .ready _ => fun _ => []
  | .deferred (.mk steps _ _ _) runs => ofSteps importBy trace i (runs + 1) steps

/-- What happens in an import, whose outcome is given. -/
def ofFind (i : Nat) (name : String) (outcome : Outcome ImportError Nat) : Trace := fun s =>
  match s.loaded? i name, s.source? i name with
  | none, some source =>
    .began name source ::
      ofSource importBy trace i source (s.dropSource i name) ++ close name source outcome
  | _, _ => answer name outcome

end

/-- What happens in an import with fuel for so many loads, one inside the other. -/
def ofImport : Nat → Nat → String → Trace
  | 0, _, _ => fun _ => []
  | fuel + 1, i, name => fun s =>
    ofFind (Session.importWithin fuel i) (ofImport fuel i) i name
      (Session.importWithin (fuel + 1) i name s).1 s

end Trace

/-! ## The rules of a registry -/

/-- What an importer holds, and the loads in progress, the innermost first. -/
structure Registry where
  source : String → Option Source
  loaded : String → Option Nat
  loading : List (String × Source)

namespace Registry

open Function (update)

variable {r r₁ r' : Registry} {events more : List LoadEvent} {e : LoadEvent}

/-- What an event does to the registry, and when it can happen. -/
inductive Step (r : Registry) : LoadEvent → Registry → Prop
  | found {name : String} {m : Nat} (h : r.loaded name = some m) : Step r (.answered name (.ok m)) r
  | missing {name : String} (hloaded : r.loaded name = none) (hsource : r.source name = none) :
    Step r (.answered name (.error (.notFound name))) r
  | began {name : String} {source : Source} (hloaded : r.loaded name = none)
    (hsource : r.source name = some source) :
    Step r (.began name source)
      { r with source := update r.source name none, loading := (name, source) :: r.loading }
  | registered (name : String) (source : Source) :
    Step r (.registered name source) { r with source := update r.source name (some source) }
  | kept {name : String} {source : Source} {loading : List (String × Source)} (m : Nat)
    (h : r.loading = (name, source) :: loading) :
    Step r (.kept name source m) { r with loaded := update r.loaded name (some m), loading }
  | putBack {name : String} {source : Source} {loading : List (String × Source)}
    (h : r.loading = (name, source) :: loading) :
    Step r (.putBack name source)
      { r with source := update r.source name (some source.rerun), loading }

/-- Events one after the other. -/
inductive Path (r : Registry) : List LoadEvent → Registry → Prop
  | nil : Path r [] r
  | snoc {events : List LoadEvent} {e : LoadEvent} {r₁ r' : Registry} (before : Path r events r₁)
    (last : Step r₁ e r') : Path r (events ++ [e]) r'

theorem Path.append (h : Path r events r₁) (h' : Path r₁ more r') :
    Path r (events ++ more) r' := by
  induction h' with
  | nil => rwa [List.append_nil]
  | snoc _ last ih =>
    rw [← List.append_assoc]
    exact .snoc ih last

theorem Step.path (h : Step r e r') : Path r [e] r' := .snoc .nil h

/-- A path leads through a registry at each of its moments. -/
theorem Path.split (h : Path r (events ++ more) r') : ∃ r₁, Path r events r₁ ∧ Path r₁ more r' := by
  induction more using List.reverseRecOn generalizing r' with
  | nil =>
    rw [List.append_nil] at h
    exact ⟨r', h, .nil⟩
  | append_singleton more e ih =>
    rw [← List.append_assoc] at h
    generalize hall : events ++ more ++ [e] = all at h
    cases h with
    | nil => simp at hall
    | snoc before last =>
      obtain ⟨rfl, he⟩ := List.append_inj' hall rfl
      cases he
      obtain ⟨r₁, hfirst, hrest⟩ := ih before
      exact ⟨r₁, hfirst, .snoc hrest last⟩

theorem Path.eq_of_nil (h : Path r [] r') : r' = r := by
  generalize hnil : [] = all at h
  cases h with
  | nil => rfl
  | snoc _ _ => simp at hnil

/-- The first step of a path. -/
theorem Path.exists_step (h : Path r (e :: events) r') : ∃ r₁, Step r e r₁ ∧ Path r₁ events r' := by
  have hsplit : Path r ([e] ++ events) r' := h
  obtain ⟨r₁, hfirst, hrest⟩ := hsplit.split
  generalize hsingle : [e] = first at hfirst
  cases hfirst with
  | nil => cases hsingle
  | @snoc before _ _ _ hbefore last =>
    cases before with
    | nil =>
      cases hsingle
      rw [hbefore.eq_of_nil] at last
      exact ⟨r₁, last, hrest⟩
    | cons _ _ => simp at hsingle

theorem Step.loading_eq (h : Step r e r') : r'.loading = e.loads r.loading := by
  cases h with
  | kept m h => rw [LoadEvent.loads, h, List.tail_cons]
  | putBack h => rw [LoadEvent.loads, h, List.tail_cons]
  | _ => rfl

theorem inProgress_append_singleton (events : List LoadEvent) (e : LoadEvent) :
    inProgress (events ++ [e]) = e.loads (inProgress events) := by
  rw [inProgress, List.foldl_append]
  rfl

/-- Which loads are in progress can be told from the events alone. -/
theorem Path.loading_eq (h : Path r events r') (hr : r.loading = []) :
    r'.loading = inProgress events := by
  induction h with
  | nil => exact hr
  | snoc _ last ih => rw [last.loading_eq, ih, inProgress_append_singleton]

/-! ### Names that are being loaded -/

/-- While a name is being loaded it is neither loaded nor available, and so no load of it begins
inside its own. -/
structure Away (name : String) (r : Registry) : Prop where
  source : name ∈ Entries.keys r.loading → r.source name = none
  loaded : name ∈ Entries.keys r.loading → r.loaded name = none
  once : (Entries.keys r.loading).count name ≤ 1

/-- Nothing is registered under the name while a load of it is in progress. -/
def Undisturbed (name : String) (events : List LoadEvent) : Prop :=
  ∀ before source after, events = before ++ .registered name source :: after →
    name ∉ Entries.keys (inProgress before)

variable {name k : String}

theorem Undisturbed.of_append (h : Undisturbed name (events ++ more)) :
    Undisturbed name events := by
  intro before source after heq
  refine h before source (after ++ more) ?_
  rw [heq, List.append_assoc, List.cons_append]

theorem away_of_idle (h : r.loading = []) : Away name r where
  source := by simp [h]
  loaded := by simp [h]
  once := by simp [h]

/-- The end of the innermost load leaves the other ones in progress. -/
theorem Away.of_end {source : Source} {loading : List (String × Source)} (h : Away k r)
    (hr : r.loading = (name, source) :: loading) (hmem : k ∈ Entries.keys loading) :
    k ∈ Entries.keys r.loading ∧ name ≠ k := by
  have honce := h.once
  rw [hr, Entries.keys_cons] at honce ⊢
  refine ⟨List.mem_cons_of_mem _ hmem, ?_⟩
  rintro rfl
  have hcount := List.count_pos_iff.mpr hmem
  rw [List.count_cons_self] at honce
  omega

theorem Away.once_of_end {source : Source} {loading : List (String × Source)} (h : Away k r)
    (hr : r.loading = (name, source) :: loading) : (Entries.keys loading).count k ≤ 1 := by
  have honce := h.once
  rw [hr, Entries.keys_cons] at honce
  exact Nat.le_trans List.count_le_count_cons honce

theorem Away.step (h : Away k r) (hstep : Step r e r')
    (hfree : ∀ source, e = .registered k source → k ∉ Entries.keys r.loading) : Away k r' := by
  cases hstep with
  | found | missing => exact h
  | @began name source hloaded hsource =>
    by_cases hk : name = k
    · subst hk
      have hout : name ∉ Entries.keys r.loading := by
        intro hmem
        rw [h.source hmem] at hsource
        cases hsource
      have hcount : (Entries.keys ((name, source) :: r.loading)).count name = 1 := by
        rw [Entries.keys_cons, List.count_cons_self, List.count_eq_zero_of_not_mem hout]
      exact ⟨fun _ => Function.update_self .., fun _ => hloaded, Nat.le_of_eq hcount⟩
    · have hrest : k ∈ Entries.keys ((name, source) :: r.loading) → k ∈ Entries.keys r.loading :=
        fun hmem => (List.mem_cons.mp hmem).resolve_left (Ne.symm hk)
      refine ⟨fun hmem => ?_, fun hmem => h.loaded (hrest hmem), ?_⟩
      · exact (Function.update_of_ne (Ne.symm hk) _ _).trans (h.source (hrest hmem))
      · rw [Entries.keys_cons, List.count_cons_of_ne hk]
        exact h.once
  | registered name source =>
    refine ⟨fun hmem => ?_, h.loaded, h.once⟩
    have hk : k ≠ name := by
      rintro rfl
      exact hfree source rfl hmem
    exact (Function.update_of_ne hk _ _).trans (h.source hmem)
  | kept m hr =>
    refine ⟨fun hmem => h.source (h.of_end hr hmem).1, fun hmem => ?_, h.once_of_end hr⟩
    obtain ⟨hloading, hne⟩ := h.of_end hr hmem
    exact (Function.update_of_ne hne.symm _ _).trans (h.loaded hloading)
  | putBack hr =>
    refine ⟨fun hmem => ?_, fun hmem => h.loaded (h.of_end hr hmem).1, h.once_of_end hr⟩
    obtain ⟨hloading, hne⟩ := h.of_end hr hmem
    exact (Function.update_of_ne hne.symm _ _).trans (h.source hloading)

theorem Path.away (h : Path r events r') (hr : r.loading = []) (hk : Undisturbed k events) :
    Away k r' := by
  induction h with
  | nil => exact away_of_idle hr
  | snoc before last ih =>
    refine (ih hk.of_append).step last fun source he => ?_
    subst he
    rw [before.loading_eq hr]
    exact hk _ source [] rfl

end Registry

/-! ## Sessions and their registries -/

namespace Session

open Function (update)

variable {i : Nat} {name : String} {s t : Session} {source : Source}

/-- What an importer of a session holds while loads are in progress. -/
def registry (i : Nat) (loading : List (String × Source)) (s : Session) : Registry :=
  ⟨fun name => s.source? i name, fun name => s.loaded? i name, loading⟩

theorem SameImporter.registry (h : SameImporter i s t) (loading : List (String × Source)) :
    t.registry i loading = s.registry i loading := by
  simp only [Session.registry, h.source?, h.loaded?]

theorem registry_dropSource (loading : List (String × Source)) :
    (s.dropSource i name).registry i loading =
      { s.registry i loading with source := update (s.registry i loading).source name none } := by
  simp only [registry, loaded?_dropSource, source?_dropSource, Registry.mk.injEq, and_true]
  funext k
  simp only [Function.update_apply, eq_comm]

theorem registry_putSource (hthere : (s.importers[i]?).isSome)
    (loading : List (String × Source)) :
    (s.putSource i name source).registry i loading =
      { s.registry i loading with
        source := update (s.registry i loading).source name (some source) } := by
  simp only [registry, loaded?_putSource, source?_putSource hthere, Registry.mk.injEq, and_true]
  funext k
  simp only [Function.update_apply, eq_comm]

theorem registry_keep (hthere : (s.importers[i]?).isSome) (md : Module)
    (loading : List (String × Source)) :
    (s.keep i name md).2.registry i loading =
      { s.registry i loading with
        loaded := update (s.registry i loading).loaded name (some (s.keep i name md).1) } := by
  simp only [registry, source?_keep, loaded?_keep hthere, Registry.mk.injEq, and_true, true_and]
  funext k
  simp only [Function.update_apply, eq_comm]

end Session

/-! ## Runs by the rules -/

/-- A run from one session to another goes by the rules. Loads that it leaves in progress were cut
short. Unless loaders may make something available (`offers`), none does. -/
structure Traces (offers : Prop) (i : Nat) (s t : Session) (events : List LoadEvent)
    (ended : Prop) : Prop where
  there : (t.importers[i]?).isSome
  plain : offers ∨ t.Plain i
  offered : ∀ name source, .registered name source ∈ events → offers
  path : ∀ loading, ∃ opened,
    Registry.Path (s.registry i loading) events (t.registry i (opened ++ loading)) ∧
      (ended → opened = [])

/-- An action goes by the rules. -/
def Action.Traced {ε α : Type} (offers : Prop) (i : Nat) (x : Action ε α) (trace : Trace) : Prop :=
  ∀ s : Session, (s.importers[i]?).isSome → (offers ∨ s.Plain i) →
    Traces offers i s (x s).2 (trace s) (x s).1.Ends

namespace Traces

variable {offers ended : Prop} {i : Nat} {name : String} {s t u : Session} {source : Source}
  {events more : List LoadEvent}

theorem nothing (hthere : (s.importers[i]?).isSome) (hplain : offers ∨ s.Plain i) :
    Traces offers i s s [] ended where
  there := hthere
  plain := hplain
  offered := fun _ _ hmem => nomatch hmem
  path := fun _ => ⟨[], .nil, fun _ => rfl⟩

theorem same (h : Traces offers i s t events ended) (hsame : Session.SameImporter i t u) :
    Traces offers i s u events ended where
  there := hsame.same ▸ h.there
  plain := h.plain.imp_right fun ht k source hk => ht k source ((hsame.source? k).symm.trans hk)
  offered := h.offered
  path := by
    intro loading
    obtain ⟨opened, hpath, hclosed⟩ := h.path loading
    exact ⟨opened, hsame.registry (opened ++ loading) ▸ hpath, hclosed⟩

theorem append (h : Traces offers i s t events True) (h' : Traces offers i t u more ended) :
    Traces offers i s u (events ++ more) ended where
  there := h'.there
  plain := h'.plain
  offered := by
    intro name source hmem
    rcases List.mem_append.mp hmem with hmem | hmem
    · exact h.offered name source hmem
    · exact h'.offered name source hmem
  path := by
    intro loading
    obtain ⟨_, hfirst, hclosed⟩ := h.path loading
    obtain rfl := hclosed trivial
    obtain ⟨opened, hrest, hended⟩ := h'.path loading
    exact ⟨opened, hfirst.append hrest, hended⟩

theorem of_ended {ended' : Prop} (h : Traces offers i s t events ended) (hended : ended' → ended) :
    Traces offers i s t events ended' :=
  { h with
    path := fun loading =>
      let ⟨opened, hpath, hclosed⟩ := h.path loading
      ⟨opened, hpath, fun h => hclosed (hended h)⟩ }

section Loading

variable (hloaded : s.loaded? i name = none) (hsource : s.source? i name = some source)

include hloaded hsource

/-- What happens inside of a load, seen from where the load began. -/
theorem path_began (h : Traces offers i (s.dropSource i name) t events ended)
    (loading : List (String × Source)) :
    ∃ opened, Registry.Path (s.registry i loading) (.began name source :: events)
      (t.registry i (opened ++ (name, source) :: loading)) ∧ (ended → opened = []) := by
  obtain ⟨opened, hpath, hclosed⟩ := h.path ((name, source) :: loading)
  rw [Session.registry_dropSource] at hpath
  have hbegan : Registry.Step (s.registry i loading) (.began name source) _ :=
    .began hloaded hsource
  exact ⟨opened, hbegan.path.append hpath, hclosed⟩

/-- A load that is cut short stays in progress, outside of those that it led to. -/
theorem cut (h : Traces offers i (s.dropSource i name) t events ended) :
    Traces offers i s t (.began name source :: events) False where
  there := h.there
  plain := h.plain
  offered := by simpa using h.offered
  path := by
    intro loading
    obtain ⟨opened, hpath, -⟩ := h.path_began hloaded hsource loading
    exact ⟨opened ++ [(name, source)], by simpa using hpath, False.elim⟩

theorem kept (h : Traces offers i (s.dropSource i name) t events True) (md : Module) :
    Traces offers i s (t.keep i name md).2
      (.began name source :: events ++ [.kept name source (t.keep i name md).1]) ended where
  there := by
    show ((t.addModule md).2.onImporter i _).importers[i]?.isSome
    rw [Session.getElem?_onImporter, Option.isSome_map]
    exact h.there
  plain := h.plain.imp_right fun ht k found hk => ht k found (by rwa [Session.source?_keep] at hk)
  offered := by simpa using h.offered
  path := by
    intro loading
    obtain ⟨_, hpath, hclosed⟩ := h.path_began hloaded hsource loading
    obtain rfl := hclosed trivial
    refine ⟨[], ?_, fun _ => rfl⟩
    rw [List.nil_append, Session.registry_keep h.there]
    exact .snoc hpath (.kept _ rfl)

theorem putBack (h : Traces offers i (s.dropSource i name) t events True)
    (himporting : offers ∨ source.Importing) :
    Traces offers i s (t.putSource i name source.rerun)
      (.began name source :: events ++ [.putBack name source]) ended where
  there := by
    rw [Session.putSource, Session.getElem?_onImporter, Option.isSome_map]
    exact h.there
  plain := by
    rcases himporting with hoffers | himporting
    · exact .inl hoffers
    · refine h.plain.imp_right fun ht k found hk => ?_
      rw [Session.source?_putSource h.there] at hk
      split at hk
      next =>
        cases hk
        exact Source.importing_rerun.mpr himporting
      next => exact ht k found hk
  offered := by simpa using h.offered
  path := by
    intro loading
    obtain ⟨_, hpath, hclosed⟩ := h.path_began hloaded hsource loading
    obtain rfl := hclosed trivial
    refine ⟨[], ?_, fun _ => rfl⟩
    rw [List.nil_append, Session.registry_putSource h.there]
    exact .snoc hpath (.putBack rfl)

end Loading

theorem found {m : Nat} (hthere : (s.importers[i]?).isSome) (hplain : offers ∨ s.Plain i)
    (h : s.loaded? i name = some m) : Traces offers i s s [.answered name (.ok m)] ended where
  there := hthere
  plain := hplain
  offered := by simp
  path := by
    refine fun loading => ⟨[], ?_, fun _ => rfl⟩
    have hstep : Registry.Step (s.registry i loading) (.answered name (.ok m)) _ := .found h
    exact hstep.path

theorem missing (hthere : (s.importers[i]?).isSome) (hplain : offers ∨ s.Plain i)
    (h : s.Absent i name) :
    Traces offers i s (s.dropSource i name) [.answered name (.error (.notFound name))] ended where
  there := (Session.later_dropSource i name s).there hthere
  plain := hplain.imp_right (Session.later_dropSource i name s).plain
  offered := by simp
  path := by
    refine fun loading => ⟨[], ?_, fun _ => rfl⟩
    have hsame : (s.dropSource i name).registry i loading = s.registry i loading := by
      rw [Session.registry_dropSource, ← h.source]
      exact congrArg (fun source => { s.registry i loading with source })
        (Function.update_eq_self name _)
    rw [List.nil_append, hsame]
    have hstep :
        Registry.Step (s.registry i loading) (.answered name (.error (.notFound name))) _ :=
      .missing h.loaded h.source
    exact hstep.path

/-- Registering something under a name. -/
theorem registered (hoffers : offers) (hthere : (s.importers[i]?).isSome) (name : String)
    (source : Source) :
    Traces offers i s (s.putSource i name source) [.registered name source] ended where
  there := by rwa [Session.putSource, Session.getElem?_onImporter, Option.isSome_map]
  plain := .inl hoffers
  offered := fun _ _ _ => hoffers
  path := by
    refine fun loading => ⟨[], ?_, fun _ => rfl⟩
    rw [List.nil_append, Session.registry_putSource hthere]
    exact (Registry.Step.registered name source).path

end Traces

namespace Session

open CallSampler.Action

variable {ε ε' α β : Type} {offers : Prop} {i : Nat} {s : Session}

theorem traced_const {f : Session → Outcome ε α} :
    Traced offers i (fun s => (f s, s) : Action ε α) fun _ => [] :=
  fun _ hthere hplain => .nothing hthere hplain

theorem traced_followed {x : Action ε α} {trace : Trace} {k : α → Action ε β} {next : α → Trace}
    (hx : Traced offers i x trace) (hk : ∀ a, Traced offers i (k a) (next a)) :
    Traced offers i (x >>= k) (.followed x trace next) := by
  intro s hthere hplain
  have hfirst := hx s hthere hplain
  rw [Run.bind_apply, Trace.followed]
  rcases hxs : x s with ⟨a | e | p | _, t⟩ <;> rw [hxs] at hfirst
  · exact hfirst.append (hk a t hfirst.there hfirst.plain)
  all_goals
    rw [List.append_nil]
    exact hfirst

/-- An action that goes where another one goes, and ends only if that one does. -/
theorem traced_answering {x : Action ε α} {y : Action ε' β} {trace : Trace}
    (hx : Traced offers i x trace)
    (h : ∀ s, (y s).2 = (x s).2 ∧ ((y s).1.Ends → (x s).1.Ends)) : Traced offers i y trace := by
  intro s hthere hplain
  rw [(h s).1]
  exact (hx s hthere hplain).of_ended (h s).2

section Loading

variable {importBy : String → Action ImportError Nat} {trace : String → Trace}

theorem traced_loadTest (hi : ∀ name, Traced offers i (importBy name) (trace name)) (run : Nat)
    (test : LoadTest) : Traced offers i (loadTest importBy run test) (.ofTest trace test) := by
  cases test with
  | imports name =>
    refine traced_answering (hi name) fun s => ?_
    simp only [loadTest]
    rcases importBy name s with ⟨_ | _ | _ | _, t⟩ <;> exact ⟨rfl, fun h => h⟩
  | early runs => exact traced_const
  | holds name => exact traced_const

mutual

theorem traced_loadStep (hi : ∀ name, Traced offers i (importBy name) (trace name)) (run : Nat) :
    ∀ step : LoadStep, (offers ∨ step.Importing) →
      Traced offers i (loadStep importBy i run step) (.ofStep importBy trace i run step)
  | .require name, _ => by
    rw [loadStep, Trace.ofStep]
    refine traced_answering (hi name) fun s => ?_
    dsimp only
    rcases importBy name s with ⟨_ | _ | _ | _, t⟩ <;> exact ⟨rfl, fun h => h⟩
  | .attempt name, _ => by
    rw [Trace.ofStep]
    refine traced_answering (hi name) fun s => ?_
    simp only [loadStep]
    rcases importBy name s with ⟨_ | _ | _ | _, t⟩ <;> exact ⟨rfl, fun h => h⟩
  | .fail text, _ => by
    rw [loadStep, Trace.ofStep]
    exact traced_const
  | .branch test yes no, h => by
    rw [LoadStep.Importing] at h
    rw [loadStep, Trace.ofStep]
    refine traced_followed (traced_loadTest hi run test) fun b => ?_
    cases b with
    | true => exact traced_loadSteps hi run yes (h.imp_right And.left)
    | false => exact traced_loadSteps hi run no (h.imp_right And.right)
  | .offer b, h => by
    rw [LoadStep.Importing, or_false] at h
    rw [loadStep, Trace.ofStep]
    intro s hthere hplain
    have hbuilt : Traces offers i s (s.build b).2 [] True :=
      (Traces.nothing hthere hplain).same ⟨rfl⟩
    exact hbuilt.append (.registered h hbuilt.there _ _)
  | .offerLoader name loader, h => by
    rw [LoadStep.Importing, or_false] at h
    rw [loadStep, Trace.ofStep]
    exact fun s hthere _ => .registered h hthere name _

theorem traced_loadSteps (hi : ∀ name, Traced offers i (importBy name) (trace name)) (run : Nat) :
    ∀ steps : List LoadStep, (offers ∨ AllImporting steps) →
      Traced offers i (loadSteps importBy i run steps) (.ofSteps importBy trace i run steps)
  | [], _ => by
    rw [loadSteps, Trace.ofSteps]
    exact traced_const
  | step :: rest, h => by
    rw [AllImporting] at h
    rw [loadSteps, Trace.ofSteps]
    exact traced_followed (traced_loadStep hi run step (h.imp_right And.left)) fun _ =>
      traced_loadSteps hi run rest (h.imp_right And.right)

end

/-- What a loader builds shows in no importer. -/
theorem traced_runLoader (hi : ∀ name, Traced offers i (importBy name) (trace name)) (runs : Nat)
    {loader : Loader} (h : offers ∨ loader.Importing) :
    Traced offers i (runLoader importBy i (runs + 1) loader)
      (.ofSource importBy trace i (.deferred loader runs)) := by
  obtain ⟨steps, failures, complaint, finish⟩ := loader
  intro s hthere hplain
  have hsteps := traced_loadSteps hi (runs + 1) steps (h.imp_right And.left) s hthere hplain
  simp only [runLoader, Trace.ofSource, Run.bind_apply]
  rcases hrun : loadSteps importBy i (runs + 1) steps s with ⟨a | e | p | _, t⟩ <;>
    rw [hrun] at hsteps
  · by_cases hfails : runs + 1 ≤ failures
    · simp only [hfails, if_true]
      exact hsteps
    · simp only [hfails, if_false]
      cases finish with
      | build b => exact hsteps.same ⟨rfl⟩
      | panic payload => exact hsteps.of_ended fun _ => trivial
  all_goals exact hsteps

/-- An import goes by the rules if all imports inside it do. -/
theorem traced_find (hi : ∀ name, Traced offers i (importBy name) (trace name)) (name : String) :
    Traced offers i (find importBy i name) fun s =>
      Trace.ofFind importBy trace i name (find importBy i name s).1 s := by
  intro s hthere hplain
  unfold Trace.ofFind
  cases hloaded : s.loaded? i name with
  | some m =>
    simp only [find, hloaded]
    exact .found hthere hplain hloaded
  | none =>
    simp only [find, hloaded, load, takeSource_eq]
    cases hsource : s.source? i name with
    | none => exact .missing hthere hplain ⟨hsource, hloaded⟩
    | some source =>
      have himporting := hplain.imp_right fun hs => hs name source hsource
      replace hthere := (later_dropSource i name s).there hthere
      replace hplain := hplain.imp_right (later_dropSource i name s).plain
      cases source with
      | ready md =>
        have hinner : Traces offers i (s.dropSource i name) (s.dropSource i name) [] True :=
          .nothing hthere hplain
        exact hinner.kept hloaded hsource md
      | deferred loader runs =>
        have hinner := traced_runLoader hi runs himporting _ hthere hplain
        dsimp only
        rcases hrun : runLoader importBy i (runs + 1) loader (s.dropSource i name) with
          ⟨md | cause | p | _, t⟩ <;> rw [hrun] at hinner
        · exact hinner.kept hloaded hsource md
        · exact hinner.putBack hloaded hsource himporting
        all_goals
          simp only [Trace.close, List.append_nil]
          exact hinner.cut hloaded hsource

end Loading

theorem fst_importWithin_succ (fuel i : Nat) (name : String) (s : Session) :
    (importWithin (fuel + 1) i name s).1 = (find (importWithin fuel i) i name s).1 := by
  rw [importWithin_succ]
  rcases find (importWithin fuel i) i name s with ⟨_ | _ | _ | _, t⟩ <;> rfl

/-- What hooks do shows in no importer. -/
theorem sameImporter_importWithin_succ (fuel i : Nat) (name : String) (s : Session) :
    SameImporter i (find (importWithin fuel i) i name s).2
      (importWithin (fuel + 1) i name s).2 := by
  rw [importWithin_succ]
  rcases find (importWithin fuel i) i name s with ⟨m | _ | _ | _, t⟩
  · constructor
    dsimp only
    rw [fireHooks_eq, importers_foldl_fire]
  all_goals exact ⟨rfl⟩

/-- Imports go by the rules, whatever their loaders do and however they end. -/
theorem traced_importWithin (offers : Prop) (i fuel : Nat) (name : String) :
    Traced offers i (importWithin fuel i name) (Trace.ofImport fuel i name) := by
  induction fuel generalizing name with
  | zero => exact fun _ hthere hplain => .nothing hthere hplain
  | succ fuel ih =>
    intro s hthere hplain
    show Traces offers i s _ (Trace.ofFind _ _ i name (importWithin (fuel + 1) i name s).1 s) _
    rw [fst_importWithin_succ]
    exact (traced_find ih name s hthere hplain).same (sameImporter_importWithin_succ fuel i name s)

end Session

end CallSampler
