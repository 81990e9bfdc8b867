import CallSampler.Proofs.Json.WellFormed

/-!
# Documents whose keys repeat

The text of an object may give a key more than once. `Json.settled` is the document that such a text
stands for: in every object, at every depth, a repeated key keeps its first place and takes its last
value. So no key is left that repeats (`distinctKeys_settled`), and nothing is settled in a document
that is well formed (`settled_of_wellFormed`).
-/

namespace CallSampler.Json

mutual

/-- The document without repeated keys. -/
def settled : Json → Json
  | .array items => .array (settledItems items)
  | .object entries => .object (Entries.ofAssignments (settledEntries entries))
  | j => j

/-- The items of an array, each settled. -/
def settledItems : List Json → List Json
  | [] => []
  | j :: rest => j.settled :: settledItems rest

/-- The entries of an object, the value of each settled. -/
def settledEntries : List (String × Json) → List (String × Json)
  | [] => []
  | (key, j) :: rest => (key, j.settled) :: settledEntries rest

end

@[simp] theorem settled_array (items : List Json) :
    (Json.array items).settled = .array (items.map settled) := by
  have h : settledItems items = items.map settled := by
    induction items with
    | nil => rfl
    | cons j rest ih => rw [settledItems, ih, List.map_cons]
  rw [settled, h]

theorem settled_object (entries : List (String × Json)) :
    (Json.object entries).settled =
      .object (Entries.ofAssignments (entries.map fun e => (e.1, e.2.settled))) := by
  have h : settledEntries entries = entries.map fun e => (e.1, e.2.settled) := by
    induction entries with
    | nil => rfl
    | cons e rest ih => rw [settledEntries, ih, List.map_cons]
  rw [settled, h]

theorem settled_of_wellFormed {j : Json} (hw : j.WellFormed) : j.settled = j := by
  induction j using induct with
  | null => rfl
  | bool b => rfl
  | number n => rfl
  | string s => rfl
  | array items ih =>
    rw [wellFormed_array] at hw
    have hsame : ∀ j ∈ items, j.settled = id j := fun j hj => ih j hj (hw j hj)
    rw [settled_array, List.map_congr_left hsame, List.map_id]
  | object entries ih =>
    rw [wellFormed_object] at hw
    obtain ⟨hkeys, hvalues⟩ := hw
    have hsame : ∀ e ∈ entries, (e.1, e.2.settled) = id e := by
      intro e he
      rw [ih e he (hvalues e he), id]
    rw [settled_object, List.map_congr_left hsame, List.map_id,
      Entries.ofAssignments_of_nodup hkeys]

/-- What `DistinctKeys` asks of a document apart from its parts. -/
def KeysDistinct : Json → Prop
  | .object entries => (Entries.keys entries).Nodup
  | _ => True

/-- No object in a document has a key twice. -/
def DistinctKeys (j : Json) : Prop := j.Everywhere KeysDistinct

theorem distinctKeys_object {entries : List (String × Json)} :
    (Json.object entries).DistinctKeys ↔
      (Entries.keys entries).Nodup ∧ ∀ e ∈ entries, e.2.DistinctKeys :=
  everywhere_object

theorem distinctKeys_settled (j : Json) : j.settled.DistinctKeys := by
  induction j using induct with
  | null => trivial
  | bool b => trivial
  | number n => trivial
  | string s => trivial
  | array items ih =>
    rw [settled_array]
    refine everywhere_array.mpr ⟨trivial, fun j hj => ?_⟩
    obtain ⟨i, hi, rfl⟩ := List.mem_map.mp hj
    exact ih i hi
  | object entries ih =>
    rw [settled_object]
    refine distinctKeys_object.mpr ⟨Entries.nodup_keys_ofAssignments _, fun e he => ?_⟩
    obtain ⟨a, ha, hvalue⟩ := Entries.mem_ofAssignments he
    obtain ⟨given, hgiven, rfl⟩ := List.mem_map.mp ha
    rw [← hvalue]
    exact ih given hgiven

end CallSampler.Json
