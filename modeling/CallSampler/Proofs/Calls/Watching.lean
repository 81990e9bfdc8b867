import CallSampler.Call

/-!
# Watching calls

How a run ends does not tell which calls were intercepted on the way, nor with what. So calls are
run once more here, over a state that also lists the interceptions (`Watched`): each with the
arguments, the way in which objects answered and the world in which its capture began, with those
that its capture caused, and with what came of it. Whatever calls nothing is run as it is
(`Watching.plain`); the functions that call are repeated, and the only one that does more than
before is `Watch.recordCall`. Leaving the list out gives back the run that was watched
(`WatchesAt.erase`).
-/

namespace CallSampler

/-! ## Interceptions -/

/-- A call of an interceptor, which captures the arguments to record them. -/
structure RecordedCall where
  store : Nat
  label : String
  paramNames : List String
  maxDepth : Nat
  args : Arguments
  /-- How objects answered then. -/
  answer : Answering
  /-- The world in which the capture began. -/
  before : World

namespace RecordedCall

/-- The values that are captured, each with its index. -/
def items (c : RecordedCall) : List (Value × Nat) :=
  c.args.positional.zipIdx ++ namedArguments c.args c.paramNames

/-- The samples that the capture returned. -/
def samples (c : RecordedCall) : List Sample :=
  match c.items.mapM (captureSample c.answer c.maxDepth) c.before with
  | (.ok samples, _) => samples
  | _ => []

def Complete (c : RecordedCall) : Prop :=
  ∃ w, c.items.mapM (captureSample c.answer c.maxDepth) c.before = (.ok c.samples, w)

end RecordedCall

/-- A call of an interceptor whose capture has ended. -/
structure Interception extends RecordedCall where
  /-- The interceptions that the capture caused, in the order in which they ended. -/
  during : List Interception
  /-- The samples, or the payload if the capture panicked. -/
  captured : Except Payload (List Sample)

namespace Interception

/-- What an interception does by itself: record its samples, or tell that there are none. -/
def settle (c : Interception) : Host Unit :=
  match c.captured with
  | .ok samples => keepCall c.store c.label samples c.paramNames
  | .error payload => Run.update (World.notify (.captureFailed c.label payload))

mutual

/-- An interception and all that its capture caused, in the order in which they ended. -/
def all : Interception → List Interception
  | ⟨call, during, captured⟩ => allOf during ++ [⟨call, during, captured⟩]

/-- The same of several interceptions, one after the other. -/
def allOf : List Interception → List Interception
  | [] => []
  | c :: rest => c.all ++ allOf rest

end

end Interception

/-- A world whose interceptions are watched. -/
structure Watched where
  world : World
  /-- How many interceptions have begun. -/
  begun : Nat
  /-- The interceptions that have ended, each with those that its capture caused. -/
  ended : List Interception

abbrev Watching (α : Type) : Type := Run Watched CallError α

/-- A run that invokes nothing. -/
def Watching.plain {α : Type} (x : Host α) : Watching α := fun w =>
  ((x w.world).1, { w with world := (x w.world).2 })

namespace Watched

/-- A world in which nothing was intercepted so far. -/
def start (w : World) : Watched := { world := w, begun := 0, ended := [] }

/-- An interception begins. What ended before it is not of its doing. -/
def begin (w : Watched) : (Nat × World) × Watched :=
  ((w.ended.length, w.world), { w with begun := w.begun + 1 })

/-- The capture of an interception has ended, and caused all but the first so many of those that
have ended. -/
def close (before : Nat) (c : Interception) (w : Watched) : Watched :=
  { w with ended := w.ended.take before ++ [{ c with during := w.ended.drop before }] }

end Watched

/-! ## The functions that call -/

namespace Watch

open Watching

abbrev Calling : Type := Callable → Arguments → Watching Value

abbrev Answering : Type := Object → Watching (Option (List (String × Value)))

def callValue (call : Calling) (v : Value) (args : Arguments) : Watching Value :=
  match v with
  | .function f => call f args
  | v => Run.fail (.notCallable v.kind)

def callVariable (call : Calling) (name : String) (args : Arguments) : Watching Value := do
  match ← plain (Run.inspect fun w => w.heap.lookup? name) with
  | some v => callValue call v args
  | none => Run.fail (.noVariable name)

def answerBy (call : Calling) : Answering := fun o =>
  match o.attributes with
  | .absent => pure none
  | .listed entries => pure (some entries)
  | .panics payload => Run.panic payload
  | .calls name arguments => do
    let args := { positional := arguments.map Prod.snd, keywords := [] }
    match ← Run.catchError (callVariable call name args) with
    | .ok result => pure (some [("result", result)])
    | .error _ => pure none

def runBody (call : Calling) : Body Value → Arguments → Watching Value
  | .call name, args => callVariable call name args
  | .apply, args =>
    match args.positional with
    | [] => pure .none
    | f :: rest => callValue call f { args with positional := rest }
  | .andThen first second, args => do
    let _ ← runBody call first args
    runBody call second args
  | .pipe first second, args => do
    let v ← runBody call first args
    runBody call second (args.prepend v)
  | .recover first second, args => do
    match ← Run.catchError (runBody call first args) with
    | .ok v => pure v
    | .error _ => runBody call second args
  | .branch test yes no, args => do
    let v ← runBody call test args
    if v.asBool = some true then runBody call yes args else runBody call no args
  | body, args => plain (CallSampler.runBody (fun _ _ => Run.exhaust) body args)

def captureEntry (inner : Value → Watching Json) (e : Value × Value) :
    Watching (String × Json) := do
  let key ← plain (renderKey e.1)
  let image ← inner e.2
  pure (key, image)

def captureAttribute (inner : Value → Watching Json) (a : String × Value) :
    Watching (String × Json) := do
  let image ← inner a.2
  pure (a.1, image)

def captureNode (answer : Answering) (inner : Value → Watching Json) : Value → Watching Json
  | .list cell => do
    let items ← plain (Run.inspect fun w => w.heap.listAt cell)
    let images ← items.mapM inner
    pure (.array images)
  | .tuple items => do
    let images ← items.mapM inner
    pure (.array images)
  | .dict cell => do
    let entries ← plain (Run.inspect fun w => w.heap.dictAt cell)
    let images ← entries.mapM (captureEntry inner)
    pure (.object (Entries.ofAssignments images))
  | .object cell => do
    match ← plain (Run.inspect fun w => w.heap.object? cell) with
    | none => pure .null
    | some o =>
      if o.callable then pure (.string functionMarker)
      else match ← answer o with
        | none => pure (captureDescription o)
        | some attributes => do
          let images ← (attributes.filter fun a => isPublic a.1).mapM (captureAttribute inner)
          pure (.object (Entries.ofAssignments images))
  | v => plain (CallSampler.captureNode (fun _ => Run.exhaust) (fun _ => Run.exhaust) v)

def captureLevels (answer : Answering) : Nat → Value → Watching Json
  | 0 => fun v => plain (captureMarker v)
  | levels + 1 => captureNode answer (captureLevels answer levels)

def captureSample (answer : Answering) (maxDepth : Nat) (v : Value × Nat) : Watching Sample := do
  let image ← captureLevels answer (maxDepth + 1) v.1
  pure (v.2, image)

def captureArguments (answer : Answering) (maxDepth : Nat) (args : Arguments)
    (paramNames : List String) : Watching (List Sample) := do
  let positional ← args.positional.zipIdx.mapM (captureSample answer maxDepth)
  let keywords ← (namedArguments args paramNames).mapM (captureSample answer maxDepth)
  pure (positional ++ keywords)

/-- The call that is watched goes through variables by `call`, which says how objects answer. -/
def recordCall (call : CallSampler.Calling) (watched : Calling) (label : String)
    (paramNames : List String) (store maxDepth : Nat) (args : Arguments) : Watching Unit := do
  let (ended, before) ← Run.step Watched.begin
  let captured ← Run.catchPanic (captureArguments (answerBy watched) maxDepth args paramNames)
  let c : Interception :=
    { store, label, paramNames, maxDepth, args, before, captured
      answer := CallSampler.answerBy call
      during := [] }
  Run.update (Watched.close ended c)
  plain c.settle

def invokeBy (call : CallSampler.Calling) (watched : Calling) :
    Callable → Arguments → Watching Value
  | .native _ _ body, args => runBody watched body args
  | .bound _ receiver target, args => invokeBy call watched target (args.prepend receiver)
  | .interceptor _ label paramNames store maxDepth target, args => do
    recordCall call watched label paramNames store maxDepth args
    invokeBy call watched target args

def invoke : Nat → Calling
  | 0 => invokeBy (fun _ _ => Run.exhaust) fun _ _ => Run.exhaust
  | fuel + 1 => invokeBy (CallSampler.invoke fuel) (invoke fuel)

end Watch

end CallSampler
