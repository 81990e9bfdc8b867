import CallSampler.Call
import CallSampler.Eligibility

/-!
# Sessions

A session is a whole host program with its importers and whatever instruments them: the world that
calls see, the file system, and numbered importers, modules, instrumentors and contexts. This file
holds the data; importing and instrumenting have files of their own.
-/

namespace CallSampler

/-- How a loader finishes. -/
inductive Finish where
  | build (blueprint : Blueprint)
  | panic (payload : Payload)

/-- What a loader can decide by. -/
inductive LoadTest where
  /-- Whether importing a module succeeds. -/
  | imports (name : String)
  /-- Whether this is one of the first so many runs. -/
  | early (runs : Nat)
  /-- Whether a variable holds true. -/
  | holds (variableName : String)
deriving DecidableEq, Repr

mutual

/-- How a module is made on its first import. -/
inductive Loader where
  /-- Do the steps in order and then err on the first `failures` runs, with a text that ends in the
  number of the run, and finish on all later ones. -/
  | mk (steps : List LoadStep) (failures : Nat) (complaint : String) (finish : Finish)

inductive LoadStep where
  /-- Import a module, and err if that errs. -/
  | require (name : String)
  /-- Import a module, and go on either way. -/
  | attempt (name : String)
  | fail (text : String)
  /-- Do one of two lists of steps. -/
  | branch (test : LoadTest) (yes no : List LoadStep)
  /-- Make a module available. -/
  | offer (blueprint : Blueprint)
  /-- Make a module available that has a loader. -/
  | offerLoader (name : String) (loader : Loader)

end

/-- Where a module comes from. -/
inductive Source where
  | ready (m : Module)
  /-- A loader, with the number of its runs so far. -/
  | deferred (loader : Loader) (runs : Nat)

inductive Hook where
  /-- Offer the module to a context. -/
  | instrumentation (context : Nat)
  /-- Write the module's name down. -/
  | observer (id : String)
deriving DecidableEq, Repr

/-- The identifier under which contexts hook importers. -/
def instrumentationId : String := "muestreo.instrumentation"

/-- The identifier of a hook. An importer holds at most one hook for each. -/
def Hook.id : Hook → String
  | .instrumentation _ => instrumentationId
  | .observer id => id

/-- A registry of modules that can be loaded, and those that have been. -/
structure Importer where
  sources : List (String × Source)
  /-- The loaded modules, by their numbers. -/
  loaded : List (String × Nat)
  hooks : List Hook
deriving Inhabited

inductive ModuleState where
  | skipped (reason : SkipReason)
  /-- The qualified names that are wrapped now, and those that could not be. -/
  | instrumented (wrapped failed : List String)
deriving DecidableEq, Repr

/-- What wraps the functions of eligible modules, and the decisions it made. -/
structure Instrumentor where
  rules : Eligibility
  store : Nat
  processed : List (String × ModuleState)
deriving Inhabited

/-- One instrumented run: settings, a store, an instrumentor, and whether it is over. -/
structure Context where
  config : Config
  store : Nat
  instrumentor : Nat
  shutDown : Bool
deriving Inhabited

/-- What an installation hands out: its context, and whether dropping this guard shuts it down. -/
structure Guard where
  context : Nat
  persists : Bool
deriving DecidableEq, Repr, Inhabited

/-- A host program with its importers and instrumentation. -/
structure Session where
  world : World
  disk : Disk
  importers : Array Importer
  modules : Array Module
  instrumentors : Array Instrumentor
  contexts : Array Context
  /-- What observing hooks wrote down: their identifiers and the names of modules. -/
  sightings : List (String × String)

namespace Session

def empty (disk : Disk) : Session where
  world := .empty
  disk := disk
  importers := #[]
  modules := #[]
  instrumentors := #[]
  contexts := #[]
  sightings := []

instance : Inhabited Session := ⟨empty (Disk.empty [])⟩

def notify (n : Notice) (s : Session) : Session := { s with world := s.world.notify n }

def run {α : Type} (code : Host α) (s : Session) : Outcome CallError α × Session :=
  let (outcome, world) := code s.world
  (outcome, { s with world })

def onWorld {α : Type} (f : World → α × World) (s : Session) : α × Session :=
  let (a, world) := f s.world
  (a, { s with world })

def onModule (m : Nat) (f : Module → Module) (s : Session) : Session :=
  { s with modules := s.modules.modify m f }

def addModule (m : Module) (s : Session) : Nat × Session :=
  (s.modules.size, { s with modules := s.modules.push m })

def addImporter (s : Session) : Nat × Session :=
  (s.importers.size, { s with importers := s.importers.push default })

def onImporter (i : Nat) (f : Importer → Importer) (s : Session) : Session :=
  { s with importers := s.importers.modify i f }

def addStore (store : Store) (s : Session) : Nat × Session :=
  let (id, world) := s.world.addStore s.disk store
  (id, { s with world })

def loadStore (store : Nat) (s : Session) : Session :=
  { s with world := s.world.reload s.disk store }

def trySave (store : Nat) (s : Session) : Except StoreError SaveOutcome × Session :=
  match s.world.stores[store]? with
  | none => (.ok .skippedEmpty, s)
  | some st =>
    let (outcome, disk) := st.save s.disk
    (outcome, { s with disk })

/-- Save a store. A failure becomes a notice. -/
def saveStore (store : Nat) (s : Session) : Session :=
  match s.trySave store with
  | (.ok _, s) => s
  | (.error cause, s) => s.notify (.saveFailed cause)

def callBinding (fuel : Nat) (m : Nat) (name : String) (args : Arguments) (s : Session) :
    Outcome CallError Value × Session :=
  match s.modules[m]? with
  | none => (.error (.noAttribute "" name), s)
  | some md =>
    match md.get? name with
    | none => (.error (.noAttribute md.name name), s)
    | some v => s.run (callValue (invoke fuel) v args)

end Session

end CallSampler
