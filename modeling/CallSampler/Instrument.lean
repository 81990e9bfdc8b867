import CallSampler.Session

/-!
# Instrumenting modules

An instrumentor decides about each module name once. Of a module that the rules let through, every
public function that the module itself defines and that does not record yet is replaced, in place,
by an interceptor. A context ties an instrumentor to a store and an importer; the store is written
when the context shuts down, which happens at most once.
-/

namespace CallSampler

/-- What offering a module to an instrumentor leads to. -/
inductive Evaluation where
  /-- Its name was seen before, and nothing happened. -/
  | alreadyProcessed
  | evaluated (state : ModuleState)
deriving DecidableEq, Repr

namespace Instrumentor

def state? (i : Instrumentor) (name : String) : Option ModuleState := Entries.get? name i.processed

end Instrumentor

/-- The function in a binding that is to be wrapped, if it is one: its name is public, it does not
record yet, and the module defines it rather than having it from elsewhere. -/
def wrappable? (moduleName : String) (binding : String × Value) : Option Callable :=
  match binding.2 with
  | .function f =>
    if isPublic binding.1 && !f.isInterceptor && f.owner == some moduleName then some f else none
  | _ => none

/-- The name under which the calls of a binding are recorded. -/
def qualify (moduleName name : String) : String := moduleName ++ "." ++ name

namespace Session

/-- Wrap one function of a module, and add its qualified name to those that are wrapped or to those
that could not be. -/
def wrapFunction (store m : Nat) (moduleName name : String) (f : Callable)
    (done : (List String × List String) × Session) : (List String × List String) × Session :=
  let ((wrapped, failed), s) := done
  let label := qualify moduleName name
  let (wrapper, s) := s.onWorld (intercept label store f)
  match (s.modules[m]?).map (Module.assign name (.function wrapper)) with
  | some (.ok md) => ((wrapped ++ [label], failed), s.onModule m fun _ => md)
  | some (.error e) => ((wrapped, failed ++ [label]), s.notify (.wrapFailed label e))
  | none => ((wrapped, failed), s)

/-- Wrap what a module binds to a name, if it is to be wrapped. -/
def wrapBinding (store m : Nat) (moduleName : String)
    (done : (List String × List String) × Session) (binding : String × Value) :
    (List String × List String) × Session :=
  match wrappable? moduleName binding with
  | some f => wrapFunction store m moduleName binding.1 f done
  | none => done

/-- Wrap the functions of a module. The bindings are those it has at the start. -/
def wrapFunctions (store m : Nat) (md : Module) (s : Session) : ModuleState × Session :=
  let ((wrapped, failed), s) := md.bindings.foldl (wrapBinding store m md.name) (([], []), s)
  (.instrumented wrapped failed, s)

def evaluate (i m : Nat) (s : Session) : Evaluation × Session :=
  match s.instrumentors[i]?, s.modules[m]? with
  | some inst, some md =>
    if Entries.has md.name inst.processed then (.alreadyProcessed, s)
    else
      let (state, s) := match inst.rules.classify s.disk.cwd md.file with
        | some reason => (ModuleState.skipped reason, s)
        | none => s.wrapFunctions inst.store m md
      let remember (inst : Instrumentor) : Instrumentor :=
        { inst with processed := Entries.set md.name state inst.processed }
      (.evaluated state, { s with instrumentors := s.instrumentors.modify i remember })
  | _, _ => (.alreadyProcessed, s)

def addInstrumentor (config : Config) (store : Nat) (s : Session) : Nat × Session :=
  let inst := { rules := .ofConfig s.disk.cwd config, store, processed := [] }
  (s.instrumentors.size, { s with instrumentors := s.instrumentors.push inst })

/-- A new context with a store of its own, not attached to any importer. -/
def addContext (config : Config) (s : Session) : Nat × Session :=
  let (store, s) := s.addStore config.store
  let (instrumentor, s) := s.addInstrumentor config store
  (s.contexts.size,
    { s with contexts := s.contexts.push { config, store, instrumentor, shutDown := false } })

/-- Attach a hook to an importer, unless it holds one of the same identifier. -/
def installHook (i : Nat) (hook : Hook) (s : Session) : Bool × Session :=
  match s.importers[i]? with
  | none => (false, s)
  | some imp =>
    if imp.hooks.any (·.id == hook.id) then (false, s)
    else (true, s.onImporter i fun imp => { imp with hooks := imp.hooks ++ [hook] })

/-- The context that an importer is hooked by. A foreign hook under the same identifier hides
it. -/
def installed? (i : Nat) (s : Session) : Option Nat :=
  match (s.importers[i]?).bind fun imp => imp.hooks.find? (·.id == instrumentationId) with
  | some (.instrumentation c) => some c
  | _ => none

/-- Hook an importer by a new context. Where there is one already, the guard is for that context and
does not shut it down, and the settings are ignored. -/
def install (i : Nat) (config : Config) (s : Session) : Guard × Session :=
  match s.installed? i with
  | some c => ({ context := c, persists := false }, s.notify .alreadyInstalled)
  | none =>
    let (c, s) := s.addContext config
    let (_, s) := s.installHook i (.instrumentation c)
    ({ context := c, persists := true }, s.notify (.installed config.cacheFile))

def offer (c m : Nat) (s : Session) : Evaluation × Session :=
  match s.contexts[c]? with
  | some ctx => s.evaluate ctx.instrumentor m
  | none => (.alreadyProcessed, s)

/-- Save the store of a context, the first time only. Whether this was it. -/
def shutDown (c : Nat) (s : Session) : Bool × Session :=
  match s.contexts[c]? with
  | none => (false, s)
  | some ctx =>
    if ctx.shutDown then (false, s)
    else
      let close (ctx : Context) : Context := { ctx with shutDown := true }
      (true, { s with contexts := s.contexts.modify c close }.saveStore ctx.store)

def dropGuard (g : Guard) (s : Session) : Session :=
  if g.persists then (s.shutDown g.context).2 else s

def fire (m : Nat) (s : Session) : Hook → Session
  | .instrumentation c => (s.offer c m).2
  | .observer id =>
    match s.modules[m]? with
    | some md => { s with sightings := s.sightings ++ [(id, md.name)] }
    | none => s

/-- Call every hook that an importer holds now, in the order of installation. -/
def fireHooks (i m : Nat) (s : Session) : Session :=
  match s.importers[i]? with
  | some imp => imp.hooks.foldl (fire m) s
  | none => s

end Session

end CallSampler
