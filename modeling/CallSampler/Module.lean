import CallSampler.Entries
import CallSampler.Path
import CallSampler.Value.Literal

/-!
# Modules

A module is a named unit of code with a namespace of top-level bindings, some of which may be
read-only. Wrapping a function replaces its binding in place, so whoever holds the module sees it.
-/

namespace CallSampler

structure ReadOnlyBinding where
  moduleName : String
  name : String
deriving DecidableEq, Repr

def ReadOnlyBinding.message (e : ReadOnlyBinding) : String :=
  "Cannot assign read-only binding " ++ e.moduleName ++ "." ++ e.name

/-- A unit of code. -/
@[ext]
structure Module where
  name : String
  /-- The source file, if the module came from one. -/
  file : Option Path
  bindings : List (String × Value)
  /-- The names ascend, so none is bound twice. -/
  ascending : Entries.Ascending bindings
  readOnly : List String

namespace Module

def blank (name : String) (file : Option Path) : Module :=
  { name, file, bindings := [], ascending := .nil, readOnly := [] }

instance : Inhabited Module := ⟨blank "" none⟩

def bindName (name : String) (value : Value) (m : Module) : Module :=
  { m with
    bindings := Entries.putSorted name value m.bindings
    ascending := m.ascending.putSorted }

def get? (m : Module) (name : String) : Option Value := Entries.get? name m.bindings

/-- Assign a binding, which is created if it is absent. -/
def assign (name : String) (value : Value) (m : Module) : Except ReadOnlyBinding Module :=
  if name ∈ m.readOnly then .error { moduleName := m.name, name }
  else .ok (m.bindName name value)

def isInstrumented (m : Module) (name : String) : Bool :=
  match m.get? name with
  | some (.function f) => f.isInterceptor
  | _ => false

end Module

structure Definition where
  name : String
  parameters : List String
  body : Body Literal

/-- The description of a module to be built. -/
structure Blueprint where
  name : String
  file : Option Path
  definitions : List Definition
  bindings : List (String × Literal)
  readOnly : List String

namespace Blueprint

/-- Bind the functions that a module defines, each owned by it. -/
def define (m : Module) (definitions : List Definition) (h : Heap) : Module × Heap :=
  definitions.foldl (fun (m, h) d =>
    let (body, h) := Literal.buildBody d.body h
    let signature := { name := d.name, owner := some m.name, parameters := some d.parameters }
    let (f, h) := h.newNative signature body
    (m.bindName d.name (.function f), h)) (m, h)

def bindAll (m : Module) (bindings : List (String × Literal)) (h : Heap) : Module × Heap :=
  bindings.foldl (fun (m, h) (name, l) =>
    let (v, h) := l.build h
    (m.bindName name v, h)) (m, h)

/-- Build a module: its functions, then its other bindings, then the marks against assignment. -/
def build (b : Blueprint) (h : Heap) : Module × Heap :=
  let (m, h) := define (.blank b.name b.file) b.definitions h
  let (m, h) := bindAll m b.bindings h
  ({ m with readOnly := b.readOnly }, h)

end Blueprint

end CallSampler
