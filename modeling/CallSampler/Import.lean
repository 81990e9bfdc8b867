import CallSampler.Instrument

/-!
# Importing

The first import of a name loads the module, and every later one returns the very same; after each
that succeeds, the hooks see the module. While a loader runs, its source is out of the registry, so
an import of the same name from inside it finds nothing, and imports that go in circles end. A
loader that errs is put back and runs again on the next import; one that panics is not.
-/

namespace CallSampler

mutual

inductive ImportError where
  | notFound (name : String)
  | loadFailed (name : String) (cause : LoadError)

inductive LoadError where
  | complaint (text : String)
  | import (cause : ImportError)

end

mutual

def ImportError.message : ImportError → String
  | .notFound name => "No module named '" ++ name ++ "'"
  | .loadFailed name cause => "Failed to load module '" ++ name ++ "': " ++ cause.message

def LoadError.message : LoadError → String
  | .complaint text => text
  | .import cause => cause.message

end

mutual

/-- A bound on the loads that a loader can start, one inside the other. -/
def Loader.size : Loader → Nat
  | .mk steps _ _ _ => stepsSize steps + 1

def stepsSize : List LoadStep → Nat
  | [] => 0
  | step :: rest => step.size + stepsSize rest

def LoadStep.size : LoadStep → Nat
  | .branch _ yes no => stepsSize yes + stepsSize no + 1
  | .offerLoader _ loader => loader.size
  | _ => 1

end

def Source.size : Source → Nat
  | .ready _ => 1
  | .deferred loader _ => loader.size

def Importer.weight (imp : Importer) : Nat :=
  (imp.sources.map fun e => e.2.size).foldr (· + ·) 0

abbrev Action (ε α : Type) : Type := Run Session ε α

namespace Session

def register (i : Nat) (m : Module) (s : Session) : Session :=
  s.onImporter i fun imp => { imp with sources := Entries.set m.name (.ready m) imp.sources }

/-- Make a module available that is loaded on its first import. -/
def registerLoader (i : Nat) (name : String) (loader : Loader) (s : Session) : Session :=
  s.onImporter i fun imp =>
    { imp with sources := Entries.set name (.deferred loader 0) imp.sources }

def build (b : Blueprint) (s : Session) : Module × Session :=
  s.onWorld (World.onHeap b.build)

/-- Decide on the `run`-th run of a loader, importing as given. -/
def loadTest (importBy : String → Action ImportError Nat) (run : Nat) :
    LoadTest → Action LoadError Bool
  | .imports name => fun s =>
    match importBy name s with
    | (.error _, s) => (.ok false, s)
    | (outcome, s) => ((outcome.map fun _ => true).mapError .import, s)
  | .early runs => pure (decide (run ≤ runs))
  | .holds name => Run.inspect fun s =>
    decide ((s.world.heap.lookup? name).bind Value.asBool = some true)

mutual

/-- Do one step of the `run`-th run of a loader, importing as given. -/
def loadStep (importBy : String → Action ImportError Nat) (i run : Nat) :
    LoadStep → Action LoadError Unit
  | .require name => fun s =>
    match importBy name s with
    | (outcome, s) => ((outcome.map fun _ => ()).mapError .import, s)
  | .attempt name => fun s =>
    match importBy name s with
    | (.error _, s) => (.ok (), s)
    | (outcome, s) => ((outcome.map fun _ => ()).mapError .import, s)
  | .fail text => Run.fail (.complaint text)
  | .branch test yes no => do
    if ← loadTest importBy run test then loadSteps importBy i run yes
    else loadSteps importBy i run no
  | .offer b => Run.update fun s => let (m, s) := s.build b; s.register i m
  | .offerLoader name loader => Run.update (registerLoader i name loader)

def loadSteps (importBy : String → Action ImportError Nat) (i run : Nat) :
    List LoadStep → Action LoadError Unit
  | [] => pure ()
  | step :: rest => do
    loadStep importBy i run step
    loadSteps importBy i run rest

end

/-- Run a loader for the `run`-th time, counting from one. -/
def runLoader (importBy : String → Action ImportError Nat) (i run : Nat) :
    Loader → Action LoadError Module
  | .mk steps failures complaint finish => do
    loadSteps importBy i run steps
    if run ≤ failures then Run.fail (.complaint (complaint ++ " #" ++ Nat.repr run))
    else match finish with
      | .build b => Run.step (build b)
      | .panic payload => Run.panic payload

/-- Keep a module as the one that an importer has loaded under a name. -/
def keep (i : Nat) (name : String) (m : Module) (s : Session) : Nat × Session :=
  let (id, s) := s.addModule m
  (id, s.onImporter i fun imp => { imp with loaded := Entries.set name id imp.loaded })

/-- Take the source of a name out of the registry. -/
def takeSource (i : Nat) (name : String) (s : Session) : Option Source × Session :=
  ((s.importers[i]?).bind fun imp => Entries.get? name imp.sources,
    s.onImporter i fun imp => { imp with sources := Entries.erase name imp.sources })

/-- Load a module that is not loaded yet, importing other ones as given. -/
def load (importBy : String → Action ImportError Nat) (i : Nat) (name : String) :
    Action ImportError Nat := fun s =>
  match s.takeSource i name with
  | (none, s) => (.error (.notFound name), s)
  | (some (.ready m), s) => let (id, s) := s.keep i name m; (.ok id, s)
  | (some (.deferred loader runs), s) =>
    match runLoader importBy i (runs + 1) loader s with
    | (.ok m, s) => let (id, s) := s.keep i name m; (.ok id, s)
    | (.error cause, s) =>
      (.error (.loadFailed name cause),
        s.onImporter i fun imp =>
          { imp with sources := Entries.set name (.deferred loader (runs + 1)) imp.sources })
    | (.panic payload, s) => (.panic payload, s)
    | (.exhausted, s) => (.exhausted, s)

/-- The module that an importer has loaded under a name. -/
def loaded? (i : Nat) (name : String) (s : Session) : Option Nat :=
  (s.importers[i]?).bind fun imp => Entries.get? name imp.loaded

/-- Import a module with fuel for so many loads, one inside the other. -/
def importWithin : Nat → Nat → String → Action ImportError Nat
  | 0, _, _ => Run.exhaust
  | fuel + 1, i, name => do
    let m ← fun s => match s.loaded? i name with
      | some m => (.ok m, s)
      | none => load (importWithin fuel i) i name s
    Run.update (fireHooks i m)
    pure m

/-- Import a module. Each load takes a source out of the registry, and so the weight of the sources
is fuel enough where loaders register nothing. -/
def importModule (i : Nat) (name : String) : Action ImportError Nat := fun s =>
  importWithin (((s.importers[i]?).map Importer.weight).getD 0 + 1) i name s

end Session

end CallSampler
