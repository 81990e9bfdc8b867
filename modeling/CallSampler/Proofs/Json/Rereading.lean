import CallSampler.Proofs.Json.Reading

/-!
# Documents as they are read again

A float may be read as another number than the one it was written from, beside it, and nothing else
in a document changes: `Json.reread` is the document then. It has the shape of the one that was
written, so what only depends on the shape, as how deep it nests, is the same of both.
-/

namespace CallSampler

namespace Number

/-- The number that is read from the text of a number. -/
def reread : Number → Number
  | .integer i => .integer i
  | .float x => ((read? (text (.float x))).map Prod.fst).getD (.float x)

theorem reread_of_read? {x : Float} {n : Number} {r : List Char}
    (h : read? (text (.float x)) = some (n, r)) : reread (.float x) = n := by
  rw [reread, h]
  rfl

end Number

namespace Json

/-- A float whose text is the text of a number. -/
def FloatLegible (x : Float) : Prop := ∃ n, Number.read? (Number.text (.float x)) = some (n, [])

/-- What `Legible` asks of a document apart from its parts. -/
def NumberLegible : Json → Prop
  | .number (.float x) => FloatLegible x
  | _ => True

theorem numberLegible_of_ne {j : Json} (h : ∀ x, j ≠ .number (.float x)) : NumberLegible j := by
  unfold NumberLegible
  split
  next x => exact absurd rfl (h x)
  next => trivial

/-- The text of every float in a document is that of a number, if maybe another one. -/
def Legible (j : Json) : Prop := j.Everywhere NumberLegible

theorem legible_array {items : List Json} :
    (Json.array items).Legible ↔ ∀ j ∈ items, j.Legible := by
  simp [Legible, everywhere_array, NumberLegible]

theorem legible_object {entries : List (String × Json)} :
    (Json.object entries).Legible ↔ ∀ e ∈ entries, e.2.Legible := by
  simp [Legible, everywhere_object, NumberLegible]

mutual

/-- The document that is read from the text of a document. -/
def reread : Json → Json
  | .number n => .number n.reread
  | .array items => .array (rereadItems items)
  | .object entries => .object (rereadEntries entries)
  | j => j

/-- The items of an array as they are read again. -/
def rereadItems : List Json → List Json
  | [] => []
  | j :: rest => j.reread :: rereadItems rest

/-- The entries of an object as they are read again. -/
def rereadEntries : List (String × Json) → List (String × Json)
  | [] => []
  | (key, j) :: rest => (key, j.reread) :: rereadEntries rest

end

@[simp] theorem reread_ofNat (n : Nat) : (ofNat n).reread = ofNat n := rfl

@[simp] theorem reread_string (s : String) : (Json.string s).reread = .string s := rfl

@[simp] theorem reread_array (items : List Json) :
    (Json.array items).reread = .array (items.map reread) := by
  have h : rereadItems items = items.map reread := by
    induction items with
    | nil => rfl
    | cons j rest ih => rw [rereadItems, ih, List.map_cons]
  rw [reread, h]

@[simp] theorem reread_object (entries : List (String × Json)) :
    (Json.object entries).reread = .object (entries.map fun e => (e.1, e.2.reread)) := by
  have h : rereadEntries entries = entries.map fun e => (e.1, e.2.reread) := by
    induction entries with
    | nil => rfl
    | cons e rest ih => rw [rereadEntries, ih, List.map_cons]
  rw [reread, h]

variable {j : Json}

/-- What is read nests as deep as what was written. -/
theorem nesting_reread (j : Json) : j.reread.nesting = j.nesting := by
  induction j using induct with
  | null => rfl
  | bool b => rfl
  | number n => rfl
  | string s => rfl
  | array items ih =>
    have h : nestingItems (items.map reread) = nestingItems items := by
      induction items with
      | nil => rfl
      | cons j rest ihr =>
        obtain ⟨hj, hrest⟩ := List.forall_mem_cons.mp ih
        rw [List.map_cons, nestingItems, nestingItems, hj, ihr hrest]
    rw [reread_array, nesting, nesting, h]
  | object entries ih =>
    have h : nestingEntries (entries.map fun e => (e.1, e.2.reread)) = nestingEntries entries := by
      induction entries with
      | nil => rfl
      | cons e rest ihr =>
        obtain ⟨he, hrest⟩ := List.forall_mem_cons.mp ih
        rw [List.map_cons, nestingEntries, nestingEntries, he, ihr hrest]
    rw [reread_object, nesting, nesting, h]

theorem WellFormed.reread (hw : j.WellFormed) (hl : j.Legible) : j.reread.WellFormed := by
  induction j using induct with
  | null => exact wellFormed_null
  | bool b => exact wellFormed_bool b
  | string s => exact wellFormed_string s
  | number n =>
    cases n with
    | integer i => exact hw
    | float x =>
      obtain ⟨n, hn⟩ := hl
      rw [Json.reread, Number.reread_of_read? hn]
      cases n with
      | integer i => exact wellFormed_integer.mpr (Number.integerFits_of_read? hn)
      | float y => exact wellFormed_float y
  | array items ih =>
    rw [wellFormed_array] at hw
    rw [legible_array] at hl
    rw [reread_array, wellFormed_array, List.forall_mem_map]
    exact fun j hj => ih j hj (hw j hj) (hl j hj)
  | object entries ih =>
    rw [wellFormed_object] at hw
    rw [legible_object] at hl
    rw [reread_object, wellFormed_object, Entries.keys_map_value, List.forall_mem_map]
    exact ⟨hw.1, fun e he => ih e he (hw.2 e he) (hl e he)⟩

/-- What reads back exactly can be read. -/
theorem FloatsReadBack.legible (h : j.FloatsReadBack) : j.Legible := by
  induction j using induct with
  | null => trivial
  | bool b => trivial
  | string s => trivial
  | number n =>
    cases n with
    | integer i => trivial
    | float x => exact ⟨_, h⟩
  | array items ih =>
    rw [floatsReadBack_array] at h
    exact legible_array.mpr fun j hj => ih j hj (h j hj)
  | object entries ih =>
    rw [floatsReadBack_object] at h
    exact legible_object.mpr fun e he => ih e he (h e he)

theorem reread_of_floatsReadBack (h : j.FloatsReadBack) : j.reread = j := by
  induction j using induct with
  | null => rfl
  | bool b => rfl
  | string s => rfl
  | number n =>
    cases n with
    | integer i => rfl
    | float x => rw [reread, Number.reread_of_read? h]
  | array items ih =>
    rw [floatsReadBack_array] at h
    have hsame : ∀ j ∈ items, j.reread = id j := fun j hj => ih j hj (h j hj)
    rw [reread_array, List.map_congr_left hsame, List.map_id]
  | object entries ih =>
    rw [floatsReadBack_object] at h
    have hsame : ∀ e ∈ entries, (e.1, e.2.reread) = id e := fun e he => by rw [ih e he (h e he), id]
    rw [reread_object, List.map_congr_left hsame, List.map_id]

end Json

end CallSampler
