import CallSampler.Notice
import CallSampler.Outcome

/-!
# The world of a host program

What a call can see and change: the heap, the stores that interceptors record to, and the notices
given so far. Counts and depths are machine words there, and what becomes of a sum that does not fit
one depends on how the host was built.
-/

namespace CallSampler

/-- The arguments of a call. Keyword names are distinct. -/
structure Arguments where
  positional : List Value
  keywords : List (String × Value)
deriving Inhabited

namespace Arguments

def prepend (receiver : Value) (args : Arguments) : Arguments :=
  { args with positional := receiver :: args.positional }

/-- Find an argument by its position, and otherwise by its name. -/
def get? (args : Arguments) (index : Nat) (name : String) : Option Value :=
  match args.positional[index]? with
  | some v => some v
  | none => Entries.get? name args.keywords

def first (args : Arguments) : Option Value := args.positional.head?

def count (args : Arguments) : Nat := args.positional.length + args.keywords.length

end Arguments

inductive CallError where
  /-- The body of a function returned an error of its own. -/
  | body (text : String)
  | notCallable (kind : Value.Kind)
  | noAttribute (moduleName name : String)
  | noVariable (name : String)
deriving DecidableEq, Repr

def CallError.message : CallError → String
  | .body text => text
  | .notCallable kind => "'" ++ kind.name ++ "' object is not callable"
  | .noAttribute moduleName name =>
    "module '" ++ moduleName ++ "' has no attribute '" ++ name ++ "'"
  | .noVariable name => "no variable '" ++ name ++ "'"

/-- What a host does about a sum that does not fit a machine word. -/
inductive Overflow where
  /-- It starts again at zero. -/
  | wraps
  /-- It checks its sums and panics. -/
  | panics
deriving DecidableEq, Repr, Inhabited

/-- What the panic over a sum that does not fit says. -/
def Overflow.message : String := "attempt to add with overflow"

/-- The state of a host program. -/
structure World where
  heap : Heap
  stores : Array Store
  log : List Notice
  /-- How the host was built, which does not change. -/
  overflow : Overflow
deriving Inhabited

abbrev Host (α : Type) : Type := Run World CallError α

namespace World

def empty : World := { heap := .empty, stores := #[], log := [], overflow := .wraps }

def notify (n : Notice) (w : World) : World := { w with log := w.log ++ [n] }

def onHeap {α : Type} (f : Heap → α × Heap) (w : World) : α × World :=
  let (a, heap) := f w.heap
  (a, { w with heap })

def onStore (store : Nat) (f : Store → Store) (w : World) : World :=
  { w with stores := w.stores.modify store f }

/-- Whether a call of a function is one too many for a host that checks its sums. -/
def overflows (store : Nat) (label : String) (w : World) : Bool :=
  w.overflow = .panics && (w.stores[store]?).any (Store.isFull label)

def addStore (d : Disk) (s : Store) (w : World) : Nat × World :=
  let (s, dropped, failure?) := s.load d
  (w.stores.size,
    { w with stores := w.stores.push s, log := w.log ++ Notice.ofLoad dropped failure? })

def reload (d : Disk) (store : Nat) (w : World) : World :=
  match w.stores[store]? with
  | none => w
  | some s =>
    let (s, dropped, failure?) := s.load d
    { w with stores := w.stores.set! store s, log := w.log ++ Notice.ofLoad dropped failure? }

end World

end CallSampler
