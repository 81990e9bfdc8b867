import CallSampler.Json.Basic

/-!
# Function records

What is kept of the calls of one function: how many there were, the parameter names, and for each
parameter index a slot of samples, oldest first. A slot never holds more samples than its store's
capacity; the count goes on past them, in a machine word.
-/

namespace CallSampler

/-- The newest `n` items of a list that has the newest last. -/
def newest {α : Type} (n : Nat) (items : List α) : List α := items.drop (items.length - n)

section Newest

variable {α : Type} {n m : Nat}

@[simp] theorem length_newest (items : List α) : (newest n items).length = min n items.length := by
  rw [newest, List.length_drop]
  omega

theorem newest_of_length_le {items : List α} (h : items.length ≤ n) : newest n items = items := by
  rw [newest, Nat.sub_eq_zero_of_le h, List.drop_zero]

theorem mem_of_mem_newest {items : List α} {x : α} (h : x ∈ newest n items) : x ∈ items :=
  List.mem_of_mem_drop h

/-- What an earlier cut took off the front is cut off anyway. -/
theorem newest_append_newest (items more : List α) :
    newest n (newest n items ++ more) = newest n (items ++ more) := by
  have hd : (newest n items ++ more) = (items ++ more).drop (items.length - n) := by
    rw [newest, List.drop_append_of_le_length (by omega)]
  rw [hd, newest, newest, List.drop_drop, List.length_drop, List.length_append]
  congr 1
  omega

end Newest

/-- A captured argument with the index of its parameter. -/
abbrev Sample := Nat × Json

/-- Everything captured for one function. -/
structure Record where
  callCount : UInt64
  paramNames : List String
  /-- The samples by parameter index. -/
  slots : List (Nat × List Json)
  /-- The indices ascend, so no parameter has two slots. -/
  ascending : Entries.Ascending slots

namespace Record

def fresh (paramNames : List String) : Record :=
  { callCount := 0, paramNames, slots := [], ascending := .nil }

instance : Inhabited Record := ⟨fresh []⟩

/-- The samples of a parameter, if any was ever captured. -/
def samples? (r : Record) (index : Nat) : Option (List Json) :=
  Entries.find? (· == index) r.slots

/-- The name of a parameter, if the recorded list reaches that far. -/
def paramName? (r : Record) (index : Nat) : Option String := r.paramNames[index]?

/-- The samples of a slot after one more, of which the oldest make room. -/
def pushBounded (capacity : Nat) (samples : List Json) (sample : Json) : List Json :=
  newest (capacity - 1) samples ++ [sample]

/-- Making room first and cutting down afterwards come to the same. -/
theorem pushBounded_eq {capacity : Nat} (h : 0 < capacity) (samples : List Json) (sample : Json) :
    pushBounded capacity samples sample = newest capacity (samples ++ [sample]) := by
  rw [pushBounded, newest, newest, List.length_append, List.length_singleton,
    List.drop_append_of_le_length (by omega)]
  congr 2
  omega

def push (capacity : Nat) (r : Record) (s : Sample) : Record :=
  let slot := pushBounded capacity ((r.samples? s.1).getD []) s.2
  { r with
    slots := Entries.putSorted s.1 slot r.slots
    ascending := r.ascending.putSorted }

/-- Drop the oldest samples of every slot that is over a capacity. -/
def trim (capacity : Nat) (r : Record) : Record :=
  { r with
    slots := r.slots.map fun slot => (slot.1, newest capacity slot.2)
    ascending := by
      rw [Entries.Ascending, Entries.keys_map_value]
      exact r.ascending }

/-- Take over the parameter names of a call, unless there are none. -/
def rename (paramNames : List String) (r : Record) : Record :=
  { r with paramNames := if paramNames.isEmpty then r.paramNames else paramNames }

/-- Whether the count is the largest that there is. -/
def isFull (r : Record) : Bool := r.callCount + 1 == 0

/-- Count one call with its samples. After the largest count comes zero. -/
def count (capacity : Nat) (samples : List Sample) (paramNames : List String) (r : Record) :
    Record :=
  samples.foldl (push capacity) { r.rename paramNames with callCount := r.callCount + 1 }

/-! ## The file form -/

/-- The record as it is written to a file. Indices are object keys there, and so texts. -/
def toJson (r : Record) : Json :=
  .object
    [("callCount", .ofNat r.callCount.toNat),
     ("paramNames", .array (r.paramNames.map .string)),
     ("paramData", .object (r.slots.map fun slot => (Nat.repr slot.1, .array slot.2)))]

/-- A count or an index: an integer of 64 bits without a sign. -/
def fits (n : Int) : Bool := 0 ≤ n && n.toNat < wordLimit

def callCount? : Json → Option UInt64
  | .number (.integer n) => if fits n then some (.ofNat n.toNat) else none
  | _ => none

def paramNames? : Json → Option (List String)
  | .array items => items.mapM fun item =>
      match item with
      | .string s => some s
      | _ => none
  | _ => none

/-- The index that an object key spells: a decimal numeral without sign, blank or leading zero. -/
def index? (key : String) : Option Nat :=
  match key.toList with
  | [] => none
  | cs =>
    if cs.all Char.isDigit ∧ (cs.head? ≠ some '0' ∨ cs.length = 1) then
      let n := cs.foldl (fun n c => 10 * n + (c.toNat - '0'.toNat)) 0
      if fits n then some n else none
    else none

def slot? (entry : String × Json) : Option (Nat × List Json) :=
  match entry.2 with
  | .array items => (index? entry.1).map fun i => (i, items)
  | _ => none

/-- The slots that a document is, in the order in which it has them. -/
def slots? : Json → Option (List (Nat × List Json))
  | .object entries => entries.mapM slot?
  | _ => none

/-- The value of an optional component: a default where it is absent, and nothing where it is
malformed. -/
def optional {α : Type} (fallback : α) (read : Json → Option α) : Option Json → Option α
  | none => some fallback
  | some j => read j

/-- The record of three components, of which only the first has to be there. -/
def ofParts? (count : Option Json) (names slots : Option Json) : Option Record := do
  let callCount ← callCount? (← count)
  let paramNames ← optional [] paramNames? names
  let slots ← optional [] slots? slots
  some
    { callCount, paramNames
      slots := Entries.sorted slots
      ascending := Entries.ascending_sorted slots }

/-- The record that a document is: an object with the three components as entries, other entries
ignored, or an array of them in order. -/
def ofJson? : Json → Option Record
  | .object entries =>
    ofParts? (Entries.get? "callCount" entries) (Entries.get? "paramNames" entries)
      (Entries.get? "paramData" entries)
  | .array [a] => ofParts? (some a) none none
  | .array [a, b] => ofParts? (some a) (some b) none
  | .array [a, b, c] => ofParts? (some a) (some b) (some c)
  | _ => none

end Record

end CallSampler
