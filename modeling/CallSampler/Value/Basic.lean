/-!
# Runtime values

A value is a scalar, a function, a tuple, or a reference to a cell of the heap: lists, dicts and
objects are shared and mutable, so a value may contain itself. A function is a finite tree, since
what it wraps was there before it; its number tells it apart from every other function, and is the
only thing that comparing two functions looks at. Interceptors are counted apart from all other
functions, so that wrapping one changes the number of none.
-/

namespace CallSampler

/-- What unwinds when host code panics: a text, or something that has none. -/
inductive Payload where
  | text (message : String)
  | other
deriving DecidableEq, Repr

def Payload.message : Payload → String
  | .text s => s
  | .other => "unknown panic"

/-- What a function declares about itself. -/
structure Signature where
  name : String
  /-- The module that defines the function, if any. -/
  owner : Option String
  /-- The parameter names in positional order, if the function can tell. -/
  parameters : Option (List String)
deriving DecidableEq, Repr

/-- What a host function does with its arguments. -/
inductive Body (α : Type) where
  /-- Return none. -/
  | nothing
  /-- Return the first positional argument, or none. -/
  | echo
  /-- Return a positional argument, or none. -/
  | argument (index : Nat)
  /-- Return the number of arguments. -/
  | count
  /-- Return the positional arguments as a list and the keywords, in order of their names, as a
  dict. -/
  | collect
  /-- Return the wrapping sum of the named arguments, each found by its position or name, and
  zero if it is no integer. -/
  | sum (names : List String)
  /-- Return the same value each time. -/
  | give (value : α)
  /-- Return an error. -/
  | fail (text : String)
  /-- Panic. -/
  | panic (text : String)
  /-- Append to the first positional argument, and return whether it was a list. -/
  | append (item : α)
  /-- Insert into the first positional argument under a text, and return whether it was a dict. -/
  | insert (key : String) (item : α)
  /-- Return an item of the first positional argument, or none if it is no list or tuple of that
  length. -/
  | item (index : Nat)
  /-- Return what the first positional argument holds under a text, or none if it is no dict that
  has the key. -/
  | entry (key : String)
  /-- Assign the first positional argument to a variable, and return it. -/
  | assign (variableName : String)
  /-- Call what a variable holds at that moment with the same arguments. -/
  | call (variableName : String)
  /-- Call the first positional argument with all others. -/
  | apply
  /-- Return the first positional argument as a method of the second. -/
  | bind
  /-- Do one thing and, if it returned, another with the same arguments. -/
  | andThen (first second : Body α)
  /-- Do one thing and, if it returned, another with its value in front of the arguments. -/
  | pipe (first second : Body α)
  /-- Do one thing and, if it erred, another with the same arguments. -/
  | recover (first second : Body α)
  /-- Do one thing and, by whether it returned true, one of two others with the same arguments. -/
  | branch (test yes no : Body α)

instance {α : Type} : Inhabited (Body α) := ⟨.nothing⟩

mutual

/-- A runtime value. -/
inductive Value where
  | none
  | bool (value : Bool)
  | int (value : Int64)
  | float (value : Float)
  | str (value : String)
  | function (callable : Callable)
  | list (cell : Nat)
  | tuple (items : List Value)
  | dict (cell : Nat)
  | object (cell : Nat)

/-- Something that can be called. -/
inductive Callable where
  /-- A function of the host. -/
  | native (serial : Nat) (signature : Signature) (body : Body Value)
  /-- A function with its first argument supplied. -/
  | bound (serial : Nat) (receiver : Value) (target : Callable)
  /-- A function whose calls are recorded in a store, under a label and the parameter names that
  were known when it was wrapped. -/
  | interceptor (serial : Nat) (label : String) (parameters : List String) (store : Nat)
      (maxDepth : Nat) (target : Callable)

end

instance : Inhabited Value := ⟨.none⟩

/-- The answer of a function that cannot tell its parameter names. -/
structure UnknownParameters where
  functionName : String
deriving DecidableEq, Repr

def UnknownParameters.message (e : UnknownParameters) : String :=
  "No signature available for " ++ e.functionName

namespace Callable

/-- The number that tells a function apart: odd for an interceptor, even for all else. -/
def number : Callable → Nat
  | .native n _ _ => 2 * n
  | .bound n _ _ => 2 * n
  | .interceptor n _ _ _ _ _ => 2 * n + 1

def signature : Callable → Signature
  | .native _ s _ => s
  | .bound _ _ f => f.signature
  | .interceptor _ _ _ _ _ f => f.signature

def name (f : Callable) : String := f.signature.name

def owner (f : Callable) : Option String := f.signature.owner

/-- The parameter names that a caller still has to supply. Binding drops the first, and an
interceptor answers with the names it saw. -/
def parameters? : Callable → Option (List String)
  | .native _ s _ => s.parameters
  | .bound _ _ f => f.parameters?.map (List.drop 1)
  | .interceptor _ _ names _ _ _ => some names

/-- The parameter names that a caller still has to supply, or the refusal to tell them. -/
def parameters (f : Callable) : Except UnknownParameters (List String) :=
  match f.parameters? with
  | some names => .ok names
  | none => .error { functionName := f.name }

/-- Whether the function says of itself that it records its calls. -/
def isInterceptor : Callable → Bool
  | .interceptor _ _ _ _ _ _ => true
  | _ => false

end Callable

namespace Value

inductive Kind where
  | none
  | bool
  | int
  | float
  | str
  | function
  | list
  | tuple
  | dict
  | object
deriving DecidableEq, Repr

def Kind.name : Kind → String
  | .none => "none"
  | .bool => "bool"
  | .int => "int"
  | .float => "float"
  | .str => "str"
  | .function => "function"
  | .list => "list"
  | .tuple => "tuple"
  | .dict => "dict"
  | .object => "object"

def kind : Value → Kind
  | .none => .none
  | .bool _ => .bool
  | .int _ => .int
  | .float _ => .float
  | .str _ => .str
  | .function _ => .function
  | .list _ => .list
  | .tuple _ => .tuple
  | .dict _ => .dict
  | .object _ => .object

def isNone (v : Value) : Bool := v.kind = .none

/-- The integer that a value is, a truth value counting as zero or one. -/
def asInt : Value → Option Int64
  | .int i => some i
  | .bool b => some (if b then 1 else 0)
  | _ => Option.none

/-- The float that a value is, an integer as the nearest one. -/
def asFloat : Value → Option Float
  | .float x => some x
  | .int i => some (Float.ofInt i.toInt)
  | _ => Option.none

def asStr : Value → Option String
  | .str s => some s
  | _ => Option.none

def asBool : Value → Option Bool
  | .bool b => some b
  | _ => Option.none

mutual

/-- Whether two values are the same dict key: scalars of one kind by value, so that a float that is
not a number is never the same as itself, tuples item by item, and all else by identity. -/
def sameKey : Value → Value → Bool
  | .none, .none => true
  | .bool a, .bool b => a == b
  | .int a, .int b => a == b
  | .float a, .float b => a == b
  | .str a, .str b => a == b
  | .tuple a, .tuple b => sameKeys a b
  | .list a, .list b => a == b
  | .dict a, .dict b => a == b
  | .function f, .function g => f.number == g.number
  | .object a, .object b => a == b
  | _, _ => false

/-- Whether two lists of values agree item by item. -/
def sameKeys : List Value → List Value → Bool
  | [], [] => true
  | a :: as, b :: bs => sameKey a b && sameKeys as bs
  | _, _ => false

end

end Value

end CallSampler
