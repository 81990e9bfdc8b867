import CallSampler.Entries
import CallSampler.Value.Basic

/-!
# The heap

Lists, dicts and objects live in numbered cells, and variables name values. A cell is never freed,
so a reference that was handed out stays good.
-/

namespace CallSampler

/-- What an object answers when it is asked for its attributes. -/
inductive Attributes (α : Type) where
  /-- It has none to tell: the object shows itself by its description. -/
  | absent
  /-- Names and values, private ones included. -/
  | listed (entries : List (String × α))
  /-- It panics. -/
  | panics (payload : Payload)
  /-- It calls what a variable holds with these values, and answers with the result as its only
  attribute, or with none if there is no such variable or the call fails. -/
  | calls (variableName : String) (arguments : List (String × α))

inductive Description where
  /-- By the name of its type. -/
  | byType
  | text (value : String)
  /-- It writes a text and then refuses. -/
  | refuses (written : String)
  | panics (message : String)
deriving DecidableEq, Repr

/-- An object of the host. -/
structure Object where
  typeName : String
  attributes : Attributes Value
  callable : Bool
  description : Description

/-- The memory of a host program. -/
structure Heap where
  lists : Array (List Value)
  dicts : Array (List (Value × Value))
  objects : Array Object
  /-- How many host and bound functions have been made, which is the serial of the next one. -/
  functions : Nat
  /-- How many interceptors have been made. -/
  interceptors : Nat
  /-- The variables and what they hold. -/
  scope : List (String × Value)

namespace Heap

def empty : Heap where
  lists := #[]
  dicts := #[]
  objects := #[]
  functions := 0
  interceptors := 0
  scope := []

instance : Inhabited Heap := ⟨empty⟩

def listAt (h : Heap) (cell : Nat) : List Value := (h.lists[cell]?).getD []

def dictAt (h : Heap) (cell : Nat) : List (Value × Value) := (h.dicts[cell]?).getD []

def object? (h : Heap) (cell : Nat) : Option Object := h.objects[cell]?

def newList (items : List Value) (h : Heap) : Value × Heap :=
  (.list h.lists.size, { h with lists := h.lists.push items })

/-- The entries of a dict that is filled by assignments in order. -/
def dictEntries (assignments : List (Value × Value)) : List (Value × Value) :=
  assignments.foldl (fun entries a => Entries.put Value.sameKey a.1 a.2 entries) []

/-- A new dict cell, filled by assignments in order. -/
def newDict (assignments : List (Value × Value)) (h : Heap) : Value × Heap :=
  (.dict h.dicts.size, { h with dicts := h.dicts.push (dictEntries assignments) })

def newObject (o : Object) (h : Heap) : Value × Heap :=
  (.object h.objects.size, { h with objects := h.objects.push o })

def newNative (signature : Signature) (body : Body Value) (h : Heap) : Callable × Heap :=
  (.native h.functions signature body, { h with functions := h.functions + 1 })

def newBound (receiver : Value) (target : Callable) (h : Heap) : Callable × Heap :=
  (.bound h.functions receiver target, { h with functions := h.functions + 1 })

/-- Access to a function as a method: without an instance the very same function, with one a bound
function. -/
def bind (target : Callable) (instance? : Option Value) (h : Heap) : Callable × Heap :=
  match instance? with
  | none => (target, h)
  | some receiver => h.newBound receiver target

/-- Append to a list. Anything else is left alone, and the answer is false. -/
def push (target item : Value) (h : Heap) : Bool × Heap :=
  match target with
  | .list cell => (true, { h with lists := h.lists.modify cell (· ++ [item]) })
  | _ => (false, h)

/-- Insert into a dict. The entry of a key that is the same keeps its place and its spelling of the
key. Anything else is left alone, and the answer is false. -/
def insert (target key item : Value) (h : Heap) : Bool × Heap :=
  match target with
  | .dict cell =>
    (true, { h with dicts := h.dicts.modify cell (Entries.put Value.sameKey key item) })
  | _ => (false, h)

def get? (h : Heap) (target key : Value) : Option Value :=
  match target with
  | .dict cell => Entries.find? (Value.sameKey · key) (h.dictAt cell)
  | _ => none

def item? (h : Heap) (target : Value) (index : Nat) : Option Value :=
  match target with
  | .list cell => (h.listAt cell)[index]?
  | .tuple items => items[index]?
  | _ => none

/-- The number of items of a list, tuple or dict. -/
def length? (h : Heap) : Value → Option Nat
  | .list cell => some (h.listAt cell).length
  | .tuple items => some items.length
  | .dict cell => some (h.dictAt cell).length
  | _ => none

/-- Whether a value counts as callable: a function does, and an object that claims it. -/
def isCallable (h : Heap) : Value → Bool
  | .function _ => true
  | .object cell => ((h.object? cell).map Object.callable).getD false
  | _ => false

/-- Assign an attribute of an object that lists its attributes. -/
def setAttribute (cell : Nat) (name : String) (value : Value) (h : Heap) : Heap :=
  { h with objects := h.objects.modify cell fun o =>
      match o.attributes with
      | .listed entries => { o with attributes := .listed (Entries.set name value entries) }
      | _ => o }

/-- An attribute of an object that lists its attributes. -/
def attribute? (h : Heap) (cell : Nat) (name : String) : Option Value :=
  match (h.object? cell).map Object.attributes with
  | some (.listed entries) => Entries.get? name entries
  | _ => none

def lookup? (h : Heap) (name : String) : Option Value := Entries.get? name h.scope

def assign (name : String) (value : Value) (h : Heap) : Heap :=
  { h with scope := Entries.set name value h.scope }

end Heap

end CallSampler
