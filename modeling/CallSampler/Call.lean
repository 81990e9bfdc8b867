import CallSampler.Capture

/-!
# Calls

Calling a bound function puts the receiver in front of the arguments; calling an interceptor first
captures and records the arguments and then forwards the call unchanged, so the caller gets what
the function underneath returns. Capturing never fails a call: when it panics, a notice tells so and
the call goes on. Only a count that is full does, on a host that checks its sums.

A call that a body makes, or an object that is asked for its attributes, costs one unit of fuel;
everything else follows the shape of the function.
-/

namespace CallSampler

abbrev Calling : Type := Callable → Arguments → Host Value

/-- Call a value that is expected to be a function. -/
def callValue (call : Calling) (v : Value) (args : Arguments) : Host Value :=
  match v with
  | .function f => call f args
  | v => Run.fail (.notCallable v.kind)

def callVariable (call : Calling) (name : String) (args : Arguments) : Host Value := do
  match ← Run.inspect fun w => w.heap.lookup? name with
  | some v => callValue call v args
  | none => Run.fail (.noVariable name)

/-- The attributes that an object answers with. One that calls a function answers with its result,
or not at all if there is none. -/
def answerBy (call : Calling) : Answering := fun o =>
  match o.attributes with
  | .absent => pure none
  | .listed entries => pure (some entries)
  | .panics payload => Run.panic payload
  | .calls name arguments => do
    let args := { positional := arguments.map Prod.snd, keywords := [] }
    match ← Run.catchError (callVariable call name args) with
    | .ok result => pure (some [("result", result)])
    | .error _ => pure none

/-- The wrapping sum of the arguments of the given names, from an index on. -/
def sumArguments (args : Arguments) : Nat → List String → Int64
  | _, [] => 0
  | i, name :: rest =>
    ((args.get? i name).bind Value.asInt).getD 0 + sumArguments args (i + 1) rest

/-- The positional arguments as a list and the keywords, in order of their names, as a dict. -/
def collectArguments (args : Arguments) (h : Heap) : Value × Heap :=
  let (list, h) := h.newList args.positional
  let (dict, h) := h.newDict ((Entries.sorted args.keywords).map fun e => (.str e.1, e.2))
  (.tuple [list, dict], h)

/-- Do something to the first positional argument and return whether it took place. Without
arguments there is nothing to do it to. -/
def changeFirst (change : Value → Heap → Bool × Heap) (args : Arguments) : Host Value :=
  match args.positional with
  | [] => pure (.bool false)
  | target :: _ => do
    let changed ← Run.step (World.onHeap (change target))
    pure (.bool changed)

/-- Assign the first positional argument to a variable, and return it. -/
def assignFirst (name : String) (args : Arguments) : Host Value := do
  let v := args.first.getD .none
  Run.update fun w => { w with heap := w.heap.assign name v }
  pure v

/-- The first positional argument as a method of the second. -/
def bindFirst (args : Arguments) : Host Value :=
  match args.first with
  | some (.function f) => do
    let method ← Run.step (World.onHeap (Heap.bind f args.positional[1]?))
    pure (.function method)
  | v => Run.fail (.notCallable (v.getD .none).kind)

def runBody (call : Calling) : Body Value → Arguments → Host Value
  | .nothing, _ => pure .none
  | .echo, args => pure (args.first.getD .none)
  | .argument index, args => pure ((args.positional[index]?).getD .none)
  | .count, args => pure (.int (Int64.ofNat args.count))
  | .collect, args => Run.step (World.onHeap (collectArguments args))
  | .sum names, args => pure (.int (sumArguments args 0 names))
  | .give v, _ => pure v
  | .fail text, _ => Run.fail (.body text)
  | .panic text, _ => Run.panic (.text text)
  | .append item, args => changeFirst (Heap.push · item) args
  | .insert key item, args => changeFirst (Heap.insert · (.str key) item) args
  | .item index, args =>
    Run.inspect fun w => (args.first.bind fun v => w.heap.item? v index).getD .none
  | .entry key, args =>
    Run.inspect fun w => (args.first.bind fun v => w.heap.get? v (.str key)).getD .none
  | .assign name, args => assignFirst name args
  | .call name, args => callVariable call name args
  | .apply, args =>
    match args.positional with
    | [] => pure .none
    | f :: rest => callValue call f { args with positional := rest }
  | .bind, args => bindFirst args
  | .andThen first second, args => do
    let _ ← runBody call first args
    runBody call second args
  | .pipe first second, args => do
    let v ← runBody call first args
    runBody call second (args.prepend v)
  | .recover first second, args => do
    match ← Run.catchError (runBody call first args) with
    | .ok v => pure v
    | .error _ => runBody call second args
  | .branch test yes no, args => do
    let v ← runBody call test args
    if v.asBool = some true then runBody call yes args else runBody call no args

/-- Count a call and store its samples. If it is one too many for a host that checks its sums, then
by the time of the panic the record has been renamed. -/
def keepCall (store : Nat) (label : String) (samples : List Sample) (paramNames : List String) :
    Host Unit := do
  if ← Run.inspect (World.overflows store label) then
    Run.update (World.onStore store (Store.rename label paramNames))
    Run.panic (.text Overflow.message)
  else
    Run.update (World.onStore store (Store.apply label samples paramNames))

/-- Capture the arguments of a call and record them in a store. A panic while capturing is turned
into a notice, and then nothing is recorded. -/
def recordCall (call : Calling) (label : String) (paramNames : List String) (store maxDepth : Nat)
    (args : Arguments) : Host Unit := do
  match ← Run.catchPanic (captureArguments (answerBy call) maxDepth args paramNames) with
  | .ok samples => keepCall store label samples paramNames
  | .error payload => Run.update (World.notify (.captureFailed label payload))

/-- Call a function, calling through variables as given. -/
def invokeBy (call : Calling) : Callable → Arguments → Host Value
  | .native _ _ body, args => runBody call body args
  | .bound _ receiver target, args => invokeBy call target (args.prepend receiver)
  | .interceptor _ label paramNames store maxDepth target, args => do
    recordCall call label paramNames store maxDepth args
    invokeBy call target args

/-- Call a function with fuel for so many calls through variables, one inside the other. -/
def invoke : Nat → Calling
  | 0 => invokeBy fun _ _ => Run.exhaust
  | fuel + 1 => invokeBy (invoke fuel)

/-- Answer for an object with fuel for the calls that it makes. -/
def answer (fuel : Nat) : Answering := answerBy (invoke fuel)

/-- Record a call by hand: capture its arguments and store them under a name. A panic while
capturing passes through, and then nothing is recorded. -/
def recordInto (fuel : Nat) (store : Nat) (name : String) (args : Arguments)
    (paramNames : List String) : Host Unit := do
  let maxDepth ← Run.inspect fun w => ((w.stores[store]?).map Store.maxDepth).getD 0
  let samples ← captureArguments (answer fuel) maxDepth args paramNames
  keepCall store name samples paramNames

/-- Wrap a function so that its calls are recorded in a store. The parameter names are taken once,
and a function that cannot tell them has none. -/
def intercept (label : String) (store : Nat) (target : Callable) (w : World) : Callable × World :=
  let maxDepth := ((w.stores[store]?).map Store.maxDepth).getD 0
  (.interceptor w.heap.interceptors label (target.parameters?.getD []) store maxDepth target,
    { w with heap := { w.heap with interceptors := w.heap.interceptors + 1 } })

end CallSampler
