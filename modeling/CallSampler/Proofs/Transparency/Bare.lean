import CallSampler.World

/-!
# Values without interceptors

Taking every interceptor off the functions in a value leaves the value that the program would have
without instrumentation (`Value.bare`), and the same for all that holds values. What the heap does
commutes with that (`newDict_bare`, `insert_bare` and so on). Only a comparison of functions could
tell the difference, so the keys of dicts have to be free of functions where they are compared.
-/

namespace CallSampler

/-! ## Taking interceptors off -/

mutual

/-- A value whose functions record nothing. -/
def Value.bare : Value → Value
  | .none => .none
  | .bool b => .bool b
  | .int i => .int i
  | .float x => .float x
  | .str s => .str s
  | .function f => .function f.bare
  | .list cell => .list cell
  | .tuple items => .tuple (Value.bareItems items)
  | .dict cell => .dict cell
  | .object cell => .object cell

def Value.bareItems : List Value → List Value
  | [] => []
  | v :: rest => v.bare :: Value.bareItems rest

/-- The function under all interceptors, also those around what it is bound to. -/
def Callable.bare : Callable → Callable
  | .native serial signature body => .native serial signature (Callable.bareBody body)
  | .bound serial receiver target => .bound serial receiver.bare target.bare
  | .interceptor _ _ _ _ _ target => target.bare

def Callable.bareBody : Body Value → Body Value
  | .nothing => .nothing
  | .echo => .echo
  | .argument index => .argument index
  | .count => .count
  | .collect => .collect
  | .sum names => .sum names
  | .give v => .give v.bare
  | .fail text => .fail text
  | .panic text => .panic text
  | .append item => .append item.bare
  | .insert key item => .insert key item.bare
  | .item index => .item index
  | .entry key => .entry key
  | .assign name => .assign name
  | .call name => .call name
  | .apply => .apply
  | .bind => .bind
  | .andThen first second => .andThen (Callable.bareBody first) (Callable.bareBody second)
  | .pipe first second => .pipe (Callable.bareBody first) (Callable.bareBody second)
  | .recover first second => .recover (Callable.bareBody first) (Callable.bareBody second)
  | .branch test yes no =>
    .branch (Callable.bareBody test) (Callable.bareBody yes) (Callable.bareBody no)

end

/-- An entry of a dict without interceptors. -/
def bareEntry (e : Value × Value) : Value × Value := (e.1.bare, e.2.bare)

/-- Named values without interceptors. -/
def bareNamed (entries : List (String × Value)) : List (String × Value) :=
  entries.map fun e => (e.1, e.2.bare)

def Attributes.bare : Attributes Value → Attributes Value
  | .absent => .absent
  | .listed entries => .listed (bareNamed entries)
  | .panics payload => .panics payload
  | .calls name arguments => .calls name (bareNamed arguments)

def Object.bare (o : Object) : Object := { o with attributes := o.attributes.bare }

/-- The memory that the program would have without interceptors, of which none was made then. -/
def Heap.bare (h : Heap) : Heap where
  lists := h.lists.map (List.map Value.bare)
  dicts := h.dicts.map (List.map bareEntry)
  objects := h.objects.map Object.bare
  functions := h.functions
  interceptors := 0
  scope := bareNamed h.scope

/-- The world that a program would see without instrumentation: nothing is recorded, and nothing
reported. -/
def World.bare (w : World) : World :=
  { heap := w.heap.bare, stores := #[], log := [], overflow := w.overflow }

def Arguments.bare (args : Arguments) : Arguments :=
  { positional := args.positional.map Value.bare, keywords := bareNamed args.keywords }

/-! ## Values -/

namespace Value

@[simp] theorem bareItems_eq_map (items : List Value) : bareItems items = items.map bare := by
  induction items with
  | nil => rfl
  | cons v rest ih => rw [bareItems, ih, List.map_cons]

@[simp] theorem kind_bare (v : Value) : v.bare.kind = v.kind := by cases v <;> rfl

@[simp] theorem asInt_bare (v : Value) : v.bare.asInt = v.asInt := by cases v <;> rfl

@[simp] theorem asBool_bare (v : Value) : v.bare.asBool = v.asBool := by cases v <;> rfl

mutual

/-- No function stands in a value that is compared as a key. What a cell holds is not compared. -/
def FunctionFree : Value → Prop
  | .function _ => False
  | .tuple items => FunctionFreeItems items
  | _ => True

def FunctionFreeItems : List Value → Prop
  | [] => True
  | v :: rest => v.FunctionFree ∧ FunctionFreeItems rest

end

mutual

theorem functionFree_bare : ∀ v : Value, v.bare.FunctionFree ↔ v.FunctionFree
  | .none | .bool _ | .int _ | .float _ | .str _ | .list _ | .dict _ | .object _ => Iff.rfl
  | .function _ => Iff.rfl
  | .tuple items => by
    simp only [bare, FunctionFree]
    exact functionFreeItems_bare items

theorem functionFreeItems_bare :
    ∀ items : List Value, FunctionFreeItems (bareItems items) ↔ FunctionFreeItems items
  | [] => Iff.rfl
  | v :: rest => by
    simp only [bareItems, FunctionFreeItems]
    exact and_congr (functionFree_bare v) (functionFreeItems_bare rest)

end

mutual

/-- Taking interceptors off changes no comparison with a key that has no functions. -/
theorem sameKey_bare : ∀ k key : Value, key.FunctionFree → sameKey k.bare key.bare = sameKey k key
  | k, .tuple items, h => by
    cases k with
    | tuple others => exact sameKeys_bare others items h
    | _ => simp [bare, sameKey]
  | k, .function f, h => h.elim
  | k, .none, _ | k, .bool _, _ | k, .int _, _ | k, .float _, _ | k, .str _, _ | k, .list _, _
  | k, .dict _, _ | k, .object _, _ => by cases k <;> simp [bare, sameKey]

theorem sameKeys_bare : ∀ as bs : List Value, FunctionFreeItems bs →
    sameKeys (bareItems as) (bareItems bs) = sameKeys as bs
  | [], [], _ => rfl
  | [], _ :: _, _ => rfl
  | _ :: _, [], _ => rfl
  | a :: as, b :: bs, h => by
    simp only [bareItems, sameKeys]
    rw [sameKey_bare a b h.1, sameKeys_bare as bs h.2]

end

end Value

/-! ## Arguments -/

namespace Arguments

variable (args : Arguments)

theorem first_bare : args.bare.first = args.first.map Value.bare := List.head?_map

theorem count_bare : args.bare.count = args.count := by
  simp [count, bare, bareNamed]

theorem get?_bare (index : Nat) (name : String) :
    args.bare.get? index name = (args.get? index name).map Value.bare := by
  unfold get?
  simp only [bare, List.getElem?_map]
  cases args.positional[index]? with
  | none => exact Entries.find?_map_value _ _ _
  | some v => rfl

end Arguments

/-! ## The heap -/

theorem map_modify {α β : Type} (f : α → β) (g : α → α) (g' : β → β)
    (hg : ∀ a, f (g a) = g' (f a)) (xs : Array α) (i : Nat) :
    (xs.modify i g).map f = (xs.map f).modify i g' := by
  apply Array.ext_getElem?
  intro j
  rw [Array.getElem?_map, Array.getElem?_modify, Array.getElem?_modify, Array.getElem?_map]
  split
  next =>
    cases xs[j]? with
    | none => rfl
    | some a => exact congrArg some (hg a)
  next => rfl

namespace Heap

variable (h : Heap)

theorem listAt_bare (cell : Nat) : h.bare.listAt cell = (h.listAt cell).map Value.bare := by
  simp only [listAt, bare, Array.getElem?_map]
  cases h.lists[cell]? <;> rfl

theorem dictAt_bare (cell : Nat) : h.bare.dictAt cell = (h.dictAt cell).map bareEntry := by
  simp only [dictAt, bare, Array.getElem?_map]
  cases h.dicts[cell]? <;> rfl

theorem lookup?_bare (name : String) : h.bare.lookup? name = (h.lookup? name).map Value.bare :=
  Entries.find?_map_value _ _ _

theorem assign_bare (name : String) (v : Value) :
    h.bare.assign name v.bare = (h.assign name v).bare := by
  simp only [assign, bare, bareNamed, Entries.set_map_value]

theorem newList_bare (items : List Value) :
    h.bare.newList (items.map Value.bare) = (h.newList items).map Value.bare bare := by
  simp [newList, bare, Value.bare]

theorem newObject_bare (o : Object) :
    h.bare.newObject o.bare = (h.newObject o).map Value.bare bare := by
  simp [newObject, bare, Value.bare]

theorem bind_bare (f : Callable) (instance? : Option Value) :
    h.bare.bind f.bare (instance?.map Value.bare) =
      (h.bind f instance?).map Callable.bare bare := by
  cases instance? <;> rfl

/-- The entries of a dict that is filled with keys free of functions. -/
theorem dictEntries_bare {assignments : List (Value × Value)}
    (hk : ∀ a ∈ assignments, a.1.FunctionFree) :
    dictEntries (assignments.map bareEntry) = (dictEntries assignments).map bareEntry := by
  suffices hs : ∀ acc : List (Value × Value),
      (assignments.map bareEntry).foldl
        (fun entries a => Entries.put Value.sameKey a.1 a.2 entries) (acc.map bareEntry) =
      (assignments.foldl (fun entries a => Entries.put Value.sameKey a.1 a.2 entries) acc).map
        bareEntry from
    hs []
  induction assignments with
  | nil => exact fun acc => rfl
  | cons a rest ih =>
    obtain ⟨ha, hrest⟩ := List.forall_mem_cons.mp hk
    intro acc
    have hput : Entries.put Value.sameKey a.1.bare a.2.bare (acc.map bareEntry) =
        (Entries.put Value.sameKey a.1 a.2 acc).map bareEntry :=
      Entries.put_map a.2 fun e _ => Value.sameKey_bare e.1 a.1 ha
    simp only [List.map_cons, List.foldl_cons]
    rw [bareEntry, hput]
    exact ih hrest _

theorem newDict_bare {assignments : List (Value × Value)}
    (hk : ∀ a ∈ assignments, a.1.FunctionFree) :
    h.bare.newDict (assignments.map bareEntry) = (h.newDict assignments).map Value.bare bare := by
  simp [newDict, bare, Value.bare, dictEntries_bare hk]

theorem push_bare (target item : Value) :
    h.bare.push target.bare item.bare = (h.push target item).map id bare := by
  cases target with
  | list cell =>
    have hm := map_modify (List.map Value.bare) (· ++ [item]) (· ++ [item.bare])
      (fun items => List.map_append) h.lists cell
    simp only [push, bare, Value.bare, Prod.map, id, hm]
  | _ => rfl

/-- Inserting under a key that has no functions. -/
theorem insert_bare (target key item : Value) (hk : key.FunctionFree) :
    h.bare.insert target.bare key.bare item.bare = (h.insert target key item).map id bare := by
  cases target with
  | dict cell =>
    have hput : ∀ entries : List (Value × Value),
        (Entries.put Value.sameKey key item entries).map bareEntry =
          Entries.put Value.sameKey key.bare item.bare (entries.map bareEntry) := fun entries =>
      (Entries.put_map item fun e _ => Value.sameKey_bare e.1 key hk).symm
    have hm := map_modify (List.map bareEntry) _ _ hput h.dicts cell
    simp only [insert, bare, Value.bare, Prod.map, id, hm]
  | _ => rfl

theorem item?_bare (target : Value) (index : Nat) :
    h.bare.item? target.bare index = (h.item? target index).map Value.bare := by
  cases target with
  | list cell => simp [item?, Value.bare, listAt_bare]
  | tuple items => simp [item?, Value.bare]
  | _ => rfl

theorem get?_bare (target key : Value) (hk : key.FunctionFree) :
    h.bare.get? target.bare key.bare = (h.get? target key).map Value.bare := by
  cases target with
  | dict cell =>
    simp only [get?, Value.bare, dictAt_bare]
    exact Entries.find?_map fun e _ => Value.sameKey_bare e.1 key hk
  | _ => rfl

end Heap

end CallSampler
