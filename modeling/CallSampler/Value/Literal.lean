import CallSampler.Value.Heap

/-!
# Literals

A literal describes a value to be built: each list, dict, object and function in it becomes a new
cell or function, and a variable stands for the value that it holds, the very same cell.
-/

namespace CallSampler

inductive Wrapping where
  /-- A list of it. -/
  | list
  /-- A tuple of it. -/
  | tuple
  /-- A dict with it under the key `k`. -/
  | dict
  /-- An object of type `N` with it as the attribute `k`. -/
  | object
deriving DecidableEq, Repr

inductive Literal where
  | none
  | bool (value : Bool)
  | int (value : Int64)
  | float (value : Float)
  | str (value : String)
  | list (items : List Literal)
  | tuple (items : List Literal)
  /-- A dict, filled by assignments in order. -/
  | dict (assignments : List (Literal × Literal))
  /-- An object whose attributes are assigned in order. -/
  | record (typeName : String) (assignments : List (String × Literal))
  | object (typeName : String) (callable : Bool) (description : Description)
      (attributes : Attributes Literal)
  | function (signature : Signature) (body : Body Literal)
  /-- The value of a variable, or none. -/
  | variable (name : String)
  /-- A value inside so many layers. -/
  | wrapped (layer : Wrapping) (count : Nat) (inner : Literal)

instance : Inhabited Literal := ⟨.none⟩

def Wrapping.apply (w : Wrapping) (v : Value) (h : Heap) : Value × Heap :=
  match w with
  | .list => h.newList [v]
  | .tuple => (.tuple [v], h)
  | .dict => h.newDict [(.str "k", v)]
  | .object => h.newObject
      { typeName := "N", attributes := .listed [("k", v)], callable := false
        description := .byType }

def Wrapping.applyMany (w : Wrapping) : Nat → Value → Heap → Value × Heap
  | 0, v, h => (v, h)
  | n + 1, v, h => let (v, h) := w.apply v h; w.applyMany n v h

namespace Literal

mutual

def build : Literal → Heap → Value × Heap
  | .none, h => (.none, h)
  | .bool b, h => (.bool b, h)
  | .int i, h => (.int i, h)
  | .float x, h => (.float x, h)
  | .str s, h => (.str s, h)
  | .list items, h => let (vs, h) := buildItems items h; h.newList vs
  | .tuple items, h => let (vs, h) := buildItems items h; (.tuple vs, h)
  | .dict assignments, h => let (es, h) := buildPairs assignments h; h.newDict es
  | .record typeName assignments, h =>
    let (es, h) := buildNamed assignments h
    h.newObject
      { typeName, attributes := .listed (Entries.ofAssignments es), callable := false
        description := .byType }
  | .object typeName callable description attributes, h =>
    let (attributes, h) := buildAttributes attributes h
    h.newObject { typeName, attributes, callable, description }
  | .function signature body, h =>
    let (body, h) := buildBody body h
    let (f, h) := h.newNative signature body
    (.function f, h)
  | .variable name, h => ((h.lookup? name).getD .none, h)
  | .wrapped layer count inner, h => let (v, h) := build inner h; layer.applyMany count v h

def buildItems : List Literal → Heap → List Value × Heap
  | [], h => ([], h)
  | l :: rest, h =>
    let (v, h) := build l h
    let (vs, h) := buildItems rest h
    (v :: vs, h)

def buildPairs : List (Literal × Literal) → Heap → List (Value × Value) × Heap
  | [], h => ([], h)
  | (k, l) :: rest, h =>
    let (k, h) := build k h
    let (v, h) := build l h
    let (es, h) := buildPairs rest h
    ((k, v) :: es, h)

def buildNamed : List (String × Literal) → Heap → List (String × Value) × Heap
  | [], h => ([], h)
  | (name, l) :: rest, h =>
    let (v, h) := build l h
    let (es, h) := buildNamed rest h
    ((name, v) :: es, h)

def buildAttributes : Attributes Literal → Heap → Attributes Value × Heap
  | .absent, h => (.absent, h)
  | .listed entries, h => let (es, h) := buildNamed entries h; (.listed es, h)
  | .panics payload, h => (.panics payload, h)
  | .calls name arguments, h => let (es, h) := buildNamed arguments h; (.calls name es, h)

/-- Build the values that a body holds, once for all its runs. -/
def buildBody : Body Literal → Heap → Body Value × Heap
  | .nothing, h => (.nothing, h)
  | .echo, h => (.echo, h)
  | .argument index, h => (.argument index, h)
  | .count, h => (.count, h)
  | .collect, h => (.collect, h)
  | .sum names, h => (.sum names, h)
  | .give l, h => let (v, h) := build l h; (.give v, h)
  | .fail text, h => (.fail text, h)
  | .panic text, h => (.panic text, h)
  | .append l, h => let (v, h) := build l h; (.append v, h)
  | .insert key l, h => let (v, h) := build l h; (.insert key v, h)
  | .item index, h => (.item index, h)
  | .entry key, h => (.entry key, h)
  | .assign name, h => (.assign name, h)
  | .call name, h => (.call name, h)
  | .apply, h => (.apply, h)
  | .bind, h => (.bind, h)
  | .andThen first second, h =>
    let (first, h) := buildBody first h
    let (second, h) := buildBody second h
    (.andThen first second, h)
  | .pipe first second, h =>
    let (first, h) := buildBody first h
    let (second, h) := buildBody second h
    (.pipe first second, h)
  | .recover first second, h =>
    let (first, h) := buildBody first h
    let (second, h) := buildBody second h
    (.recover first second, h)
  | .branch test yes no, h =>
    let (test, h) := buildBody test h
    let (yes, h) := buildBody yes h
    let (no, h) := buildBody no h
    (.branch test yes no, h)

end

end Literal

end CallSampler
