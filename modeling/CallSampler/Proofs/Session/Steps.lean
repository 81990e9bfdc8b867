import CallSampler.Import

/-!
# Steps of a host program

What a host program does to a session, one thing at a time (`Step`): it makes modules available and
imports them, calls their functions and what its variables hold, binds methods, and builds and
changes values. A step builds the arguments that it needs and then does what it is for; it returns
an answer, or ends as the import or the call in it does (`Step.run`).
-/

namespace CallSampler

/-- The arguments of a call, to be built. -/
structure Inputs where
  positional : List Literal
  keywords : List (String × Literal)

def Inputs.build (inputs : Inputs) (h : Heap) : Arguments × Heap :=
  let (positional, h) := Literal.buildItems inputs.positional h
  let (keywords, h) := Literal.buildNamed inputs.keywords h
  ({ positional, keywords := Entries.ofAssignments keywords }, h)

/-- What a method is made of. -/
def Inputs.ofMethod (target : Literal) (receiver? : Option Literal) : Inputs :=
  { positional := target :: receiver?.toList, keywords := [] }

/-- One thing that a host program does. -/
inductive Step where
  /-- Make a module available. -/
  | offer (importer : Nat) (blueprint : Blueprint)
  /-- Make a module available that has a loader. -/
  | offerLoader (importer : Nat) (name : String) (loader : Loader)
  | import (importer : Nat) (name : String)
  /-- Call what a binding of a module holds. -/
  | callBinding (module : Nat) (name : String) (inputs : Inputs)
  /-- Call what a variable holds. -/
  | callVariable (variableName : String) (inputs : Inputs)
  /-- Make a method of a receiver, or of none. -/
  | bind (target : Literal) (receiver? : Option Literal)
  | push (target item : Literal)
  | insert (key target item : Literal)
  /-- Get what a binding of a module holds, or none. -/
  | fetch (module : Nat) (name : String)
  /-- Build a value. -/
  | make (literal : Literal)
  /-- Do a step and assign the value that it returns to a variable. -/
  | assign (variableName : String) (step : Step)

/-- What a step returns. -/
inductive Answer where
  | module (number : Nat)
  | value (value : Value)

/-- Why a step errs. -/
inductive Trouble where
  | import (cause : ImportError)
  | call (cause : CallError)

namespace Session

/-- Do something to the heap. -/
def onHeap {ε α : Type} (p : Heap → α × Heap) : Action ε α := Run.step (onWorld (World.onHeap p))

/-- An action as a step of a program. -/
def answering {ε α : Type} (f : α → Answer) (g : ε → Trouble) (x : Action ε α) :
    Action Trouble Answer := fun s =>
  (((x s).1.map f).mapError g, (x s).2)

/-- What a binding of a module holds, or none. -/
def fetch (m : Nat) (name : String) (s : Session) : Value :=
  ((s.modules[m]?).bind fun md => md.get? name).getD .none

/-- Assign what a step returned, if it is a value. -/
def assign (variableName : String) (a : Answer) (s : Session) : Session :=
  match a with
  | .module _ => s
  | .value v => { s with world := { s.world with heap := s.world.heap.assign variableName v } }

end Session

namespace Step

/-- Do the step, with fuel for the calls in it. -/
def run (fuel : Nat) : Step → Action Trouble Answer
  | .offer i b => do
    let m ← Session.onHeap b.build
    Run.update (Session.register i m)
    pure (.value .none)
  | .offerLoader i name loader => do
    Run.update (Session.registerLoader i name loader)
    pure (.value .none)
  | .import i name => Session.answering .module .import (Session.importModule i name)
  | .callBinding m name inputs => do
    let args ← Session.onHeap inputs.build
    Session.answering .value .call (Session.callBinding fuel m name args)
  | .callVariable name inputs => do
    let args ← Session.onHeap inputs.build
    Session.answering .value .call (Session.run (CallSampler.callVariable (invoke fuel) name args))
  | .bind target receiver? => do
    let args ← Session.onHeap (Inputs.ofMethod target receiver?).build
    Session.answering .value .call (Session.run (bindFirst args))
  | .push target item => do
    let target ← Session.onHeap target.build
    let item ← Session.onHeap item.build
    let pushed ← Session.onHeap (Heap.push target item)
    pure (.value (.bool pushed))
  | .insert key target item => do
    let key ← Session.onHeap key.build
    let target ← Session.onHeap target.build
    let item ← Session.onHeap item.build
    let inserted ← Session.onHeap (Heap.insert target key item)
    pure (.value (.bool inserted))
  | .fetch m name => do
    let v ← Run.inspect (Session.fetch m name)
    pure (.value v)
  | .make l => do
    let v ← Session.onHeap l.build
    pure (.value v)
  | .assign name x => do
    let a ← x.run fuel
    Run.update (Session.assign name a)
    pure a

end Step

end CallSampler
