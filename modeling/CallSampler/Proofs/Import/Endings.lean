import CallSampler.Import
import CallSampler.Proofs.Instrument.Wrapping

/-!
# The imports of a run

A loader may import, and so one import can have others inside it. A session tells which modules are
loaded, and not how that came about; the imports that end in a run are read off the run itself, each
with the session in which it began, the one in which its module was found, and the one that it left
(`Ending`). They are noted in the order in which they end, so those that a loader asked for come
before the one that its module was loaded for.
-/

namespace CallSampler

namespace Session

variable {i m : Nat} {name : String} {s : Session}

/-! ## What an importer holds -/

/-- Where an importer would load a module from. -/
def source? (i : Nat) (name : String) (s : Session) : Option Source :=
  (s.importers[i]?).bind fun imp => Entries.get? name imp.sources

/-- The hooks of an importer, in the order of installation. -/
def hooks (i : Nat) (s : Session) : List Hook := ((s.importers[i]?).map Importer.hooks).getD []

/-- A bound on the loads that an importer can start, one inside the other. -/
def weight (i : Nat) (s : Session) : Nat := ((s.importers[i]?).map Importer.weight).getD 0

theorem importers_onImporter (i j : Nat) (f : Importer → Importer) (s : Session) :
    (s.onImporter i f).importers[j]? =
      if i = j then (s.importers[j]?).map f else s.importers[j]? := by
  rw [onImporter, Array.getElem?_modify]

theorem getElem?_onImporter (i : Nat) (f : Importer → Importer) (s : Session) :
    (s.onImporter i f).importers[i]? = (s.importers[i]?).map f := by
  rw [importers_onImporter, if_pos rfl]

theorem importModule_apply (i : Nat) (name : String) (s : Session) :
    importModule i name s = importWithin (s.weight i + 1) i name s := rfl

theorem fireHooks_eq (i m : Nat) (s : Session) :
    s.fireHooks i m = (s.hooks i).foldl (fire m) s := by
  unfold fireHooks hooks
  cases s.importers[i]? <;> rfl

/-! ## What a hook does -/

theorem importers_fire (m : Nat) (s : Session) (hook : Hook) :
    (s.fire m hook).importers = s.importers := by
  cases hook with
  | instrumentation c =>
    simp only [fire, offer]
    split
    next ctx _ => exact (evaluate_rest ctx.instrumentor m s).2.2.1
    next => rfl
  | observer id =>
    simp only [fire]
    split <;> rfl

theorem importers_foldl_fire (m : Nat) (hooks : List Hook) (s : Session) :
    (hooks.foldl (fire m) s).importers = s.importers := by
  induction hooks generalizing s with
  | nil => rfl
  | cons hook rest ih => rw [List.foldl_cons, ih, importers_fire]

/-- A module that is replaced keeps its name. -/
theorem names_rewire {md md' : Module} (made : Nat) (notices : List Notice)
    (hmd : s.modules[m]? = some md) (hname : md'.name = md.name) :
    (s.rewire m md' made notices).modules.map Module.name = s.modules.map Module.name := by
  apply Array.ext_getElem?
  intro k
  rw [rewire, Array.getElem?_map, Array.getElem?_map, Array.getElem?_modify]
  split
  next hk =>
    subst hk
    simp only [hmd, Option.map_some, hname]
  next => rfl

theorem names_evaluate (ι m : Nat) (s : Session) :
    (s.evaluate ι m).2.modules.map Module.name = s.modules.map Module.name := by
  rcases evaluate_cases ι m s with
    heq | ⟨inst, md, md', made, notices, state, -, hmd, -, ⟨targets, -, hmd'⟩, heq⟩
  · rw [heq]
  · rw [heq]
    exact names_rewire made notices hmd hmd'.name

theorem names_fire (m : Nat) (s : Session) (hook : Hook) :
    (s.fire m hook).modules.map Module.name = s.modules.map Module.name := by
  cases hook with
  | instrumentation c =>
    simp only [fire, offer]
    split
    next ctx _ => exact names_evaluate ctx.instrumentor m s
    next => rfl
  | observer id =>
    simp only [fire]
    split <;> rfl

/-- The name of a module. -/
def nameOf? (m : Nat) (s : Session) : Option String := (s.modules[m]?).map Module.name

theorem nameOf?_eq (m : Nat) (s : Session) : s.nameOf? m = (s.modules.map Module.name)[m]? := by
  rw [Array.getElem?_map, nameOf?]

theorem nameOf?_fire (k m : Nat) (s : Session) (hook : Hook) :
    (s.fire m hook).nameOf? k = s.nameOf? k := by
  rw [nameOf?_eq, names_fire, nameOf?_eq]

/-- What a hook writes down about a module. -/
def sighting? (m : Nat) (s : Session) : Hook → Option (String × String)
  | .instrumentation _ => none
  | .observer id => (s.nameOf? m).map fun name => (id, name)

theorem sightings_fire (m : Nat) (s : Session) (hook : Hook) :
    (s.fire m hook).sightings = s.sightings ++ (s.sighting? m hook).toList := by
  cases hook with
  | instrumentation c =>
    rw [sighting?, Option.toList_none, List.append_nil]
    simp only [fire, offer]
    split
    next ctx _ => exact (evaluate_rest ctx.instrumentor m s).2.2.2.2
    next => rfl
  | observer id =>
    simp only [fire, sighting?, nameOf?]
    cases s.modules[m]? with
    | none => simp
    | some md => rfl

theorem sighting?_fire (m : Nat) (s : Session) (hook : Hook) :
    (s.fire m hook).sighting? m = s.sighting? m := by
  funext other
  cases other with
  | instrumentation c => rfl
  | observer id => rw [sighting?, sighting?, nameOf?_fire]

/-- What hooks write down, each in its turn. -/
theorem sightings_foldl_fire (m : Nat) (hooks : List Hook) (s : Session) :
    (hooks.foldl (fire m) s).sightings = s.sightings ++ hooks.filterMap (s.sighting? m) := by
  induction hooks generalizing s with
  | nil => simp
  | cons hook rest ih =>
    rw [List.foldl_cons, ih, sightings_fire, sighting?_fire, List.append_assoc]
    cases h : s.sighting? m hook with
    | none => rw [List.filterMap_cons_none h, Option.toList_none, List.nil_append]
    | some sighting => rw [List.filterMap_cons_some h, Option.toList_some, List.singleton_append]

end Session

/-! ## Endings -/

/-- An import that came to its end. -/
structure Ending where
  name : String
  /-- The session in which it began. -/
  before : Session
  result : Except ImportError Nat
  /-- The session in which its module was found, before hooks saw it, or in which it failed. -/
  found : Session
  after : Session

/-- The imports that end in a run from a session on, in the order in which they end. -/
abbrev Log : Type := Session → List Ending

namespace Log

variable {ε α : Type}

/-- What a run logs and then, if it returns, what comes after it. -/
def followed (x : Action ε α) (log : Log) (next : α → Log) : Log := fun s =>
  log s ++ match x s with
    | (.ok a, s) => next a s
    | _ => []

section

variable (importBy : String → Action ImportError Nat) (log : String → Log)

def ofTest : LoadTest → Log
  | .imports name => log name
  | .early _ => fun _ => []
  | .holds _ => fun _ => []

mutual

def ofStep (i run : Nat) : LoadStep → Log
  | .require name => log name
  | .attempt name => log name
  | .branch test yes no =>
    followed (Session.loadTest importBy run test) (ofTest log test) fun b =>
      if b then ofSteps i run yes else ofSteps i run no
  | .fail _ => fun _ => []
  | .offer _ => fun _ => []
  | .offerLoader _ _ => fun _ => []

def ofSteps (i run : Nat) : List LoadStep → Log
  | [] => fun _ => []
  | step :: rest =>
    followed (Session.loadStep importBy i run step) (ofStep i run step) fun _ => ofSteps i run rest

end

def ofLoader (i run : Nat) : Loader → Log
  | .mk steps _ _ _ => ofSteps importBy log i run steps

/-- The imports inside the import of a module that is looked for where it is loaded and then where
it is to be loaded from. -/
def ofFind (i : Nat) (name : String) : Log := fun s =>
  match s.loaded? i name with
  | some _ => []
  | none =>
    match s.takeSource i name with
    | (some (.deferred loader runs), s) => ofLoader importBy log i (runs + 1) loader s
    | _ => []

end

end Log

namespace Session

/-- Find a module where it is loaded, or load it, importing other ones as given. -/
def find (importBy : String → Action ImportError Nat) (i : Nat) (name : String) :
    Action ImportError Nat := fun s =>
  match s.loaded? i name with
  | some m => (.ok m, s)
  | none => load importBy i name s

theorem importWithin_succ (fuel i : Nat) (name : String) (s : Session) :
    importWithin (fuel + 1) i name s =
      match find (importWithin fuel i) i name s with
      | (.ok m, s) => (.ok m, s.fireHooks i m)
      | (outcome, s) => (outcome, s) := by
  show Run.bind (find (importWithin fuel i) i name) _ s = _
  unfold Run.bind
  rcases find (importWithin fuel i) i name s with ⟨_ | _ | _ | _, s⟩ <;> rfl

end Session

namespace Ending

/-- The end of an import that a search for the module led to, if it was not cut short. -/
def ofSearch (i : Nat) (name : String) (before : Session) :
    Outcome ImportError Nat × Session → Option Ending
  | (.ok m, found) =>
    some { name, before, result := .ok m, found, after := found.fireHooks i m }
  | (.error cause, found) =>
    some { name, before, result := .error cause, found, after := found }
  | _ => none

/-- What hooks write down at the end of an import. -/
def sightings (i : Nat) (e : Ending) : List (String × String) :=
  match e.result with
  | .ok m => (e.found.hooks i).filterMap (e.found.sighting? m)
  | .error _ => []

end Ending

/-- The imports that end in an import with fuel for so many loads, the whole one at last. -/
def Log.ofImport : Nat → Nat → String → Log
  | 0, _, _ => fun _ => []
  | fuel + 1, i, name => fun s =>
    Log.ofFind (Session.importWithin fuel i) (Log.ofImport fuel i) i name s ++
      (Ending.ofSearch i name s (Session.find (Session.importWithin fuel i) i name s)).toList

theorem Log.ofImport_succ (fuel i : Nat) (name : String) (s : Session) :
    Log.ofImport (fuel + 1) i name s =
      Log.ofFind (Session.importWithin fuel i) (Log.ofImport fuel i) i name s ++
        (Ending.ofSearch i name s
          (Session.find (Session.importWithin fuel i) i name s)).toList := rfl

end CallSampler
