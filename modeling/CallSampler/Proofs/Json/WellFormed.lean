import CallSampler.Json.Reader
import CallSampler.Json.Printer

/-!
# Well-formed documents

What a document has to satisfy so that its text reads back to it: no object has a key twice, and
every integer fits 64 bits. Both the reader and the capture of values make such documents only.
Floats are apart: the reader rounds more than once, so that not every double reads back, and
`FloatsReadBack` says of a document that all of its floats do.
-/

namespace CallSampler.Json

/-! ## Induction -/

/-- Induction on documents, with the hypothesis for every item and every entry. -/
theorem induct {motive : Json → Prop} (null : motive .null) (bool : ∀ b, motive (.bool b))
    (number : ∀ n, motive (.number n)) (string : ∀ s, motive (.string s))
    (array : ∀ items, (∀ j ∈ items, motive j) → motive (.array items))
    (object : ∀ entries, (∀ e ∈ entries, motive e.2) → motive (.object entries)) :
    ∀ j, motive j :=
  @Json.rec motive (fun items => ∀ j ∈ items, motive j)
    (fun entries => ∀ e ∈ entries, motive e.2) (fun e => motive e.2)
    null bool number string array object
    (fun _ h => by cases h)
    (fun _ _ hj hr => List.forall_mem_cons.mpr ⟨hj, hr⟩)
    (fun _ h => by cases h)
    (fun _ _ he hr => List.forall_mem_cons.mpr ⟨he, hr⟩)
    (fun _ _ h => h)

/-! ## Nesting -/

theorem nestingItems_le {items : List Json} {k : Nat} :
    nestingItems items ≤ k ↔ ∀ j ∈ items, j.nesting ≤ k := by
  induction items with
  | nil => simp [nestingItems]
  | cons j rest ih => rw [nestingItems, Nat.max_le, ih, List.forall_mem_cons]

theorem nestingEntries_le {entries : List (String × Json)} {k : Nat} :
    nestingEntries entries ≤ k ↔ ∀ e ∈ entries, e.2.nesting ≤ k := by
  induction entries with
  | nil => simp [nestingEntries]
  | cons e rest ih => rw [nestingEntries, Nat.max_le, ih, List.forall_mem_cons]

theorem nesting_array_le {items : List Json} {k : Nat} :
    (Json.array items).nesting ≤ k + 1 ↔ ∀ j ∈ items, j.nesting ≤ k := by
  rw [nesting, Nat.add_le_add_iff_right, nestingItems_le]

theorem nesting_object_le {entries : List (String × Json)} {k : Nat} :
    (Json.object entries).nesting ≤ k + 1 ↔ ∀ e ∈ entries, e.2.nesting ≤ k := by
  rw [nesting, Nat.add_le_add_iff_right, nestingEntries_le]

/-! ## Properties of every part -/

mutual

/-- A property of a document and of every document inside it. -/
def Everywhere (P : Json → Prop) : Json → Prop
  | .array items => P (.array items) ∧ EverywhereItems P items
  | .object entries => P (.object entries) ∧ EverywhereEntries P entries
  | j => P j

/-- A property of the items of an array and of every document inside them. -/
def EverywhereItems (P : Json → Prop) : List Json → Prop
  | [] => True
  | j :: rest => j.Everywhere P ∧ EverywhereItems P rest

/-- A property of the values of an object and of every document inside them. -/
def EverywhereEntries (P : Json → Prop) : List (String × Json) → Prop
  | [] => True
  | (_, j) :: rest => j.Everywhere P ∧ EverywhereEntries P rest

end

variable {P : Json → Prop}

theorem everywhere_array {items : List Json} :
    (Json.array items).Everywhere P ↔ P (.array items) ∧ ∀ j ∈ items, j.Everywhere P := by
  have h : EverywhereItems P items ↔ ∀ j ∈ items, j.Everywhere P := by
    induction items with
    | nil => simp [EverywhereItems]
    | cons j rest ih => simp [EverywhereItems, ih]
  rw [Everywhere, h]

theorem everywhere_object {entries : List (String × Json)} :
    (Json.object entries).Everywhere P ↔ P (.object entries) ∧ ∀ e ∈ entries, e.2.Everywhere P := by
  have h : EverywhereEntries P entries ↔ ∀ e ∈ entries, e.2.Everywhere P := by
    induction entries with
    | nil => simp [EverywhereEntries]
    | cons e rest ih => simp [EverywhereEntries, ih]
  rw [Everywhere, h]

/-- The documents right inside an array or an object. -/
def parts : Json → List Json
  | .array items => items
  | .object entries => entries.map Prod.snd
  | _ => []

theorem mem_parts_of_get? {entries : List (String × Json)} {name : String} {j : Json}
    (h : Entries.get? name entries = some j) : j ∈ (Json.object entries).parts :=
  List.mem_map_of_mem (Entries.mem_of_find? h)

theorem Everywhere.parts {j : Json} (h : j.Everywhere P) : ∀ p ∈ j.parts, p.Everywhere P := by
  cases j with
  | array items => exact (everywhere_array.mp h).2
  | object entries =>
    intro p hp
    obtain ⟨e, he, rfl⟩ := List.mem_map.mp hp
    exact (everywhere_object.mp h).2 e he
  | _ =>
    intro p hp
    cases hp

theorem nesting_of_mem_parts {j p : Json} {k : Nat} (h : j.nesting ≤ k + 1) (hp : p ∈ j.parts) :
    p.nesting ≤ k := by
  cases j with
  | array items => exact nesting_array_le.mp h p hp
  | object entries =>
    obtain ⟨e, he, rfl⟩ := List.mem_map.mp hp
    exact nesting_object_le.mp h e he
  | _ => cases hp

/-! ## Well-formedness -/

/-- The integers that fit 64 bits, with a sign or without. -/
def IntegerFits (i : Int) : Prop := -9223372036854775808 ≤ i ∧ i < wordLimit

/-- What well-formedness asks of a document apart from its parts. -/
def Proper : Json → Prop
  | .object entries => (Entries.keys entries).Nodup
  | .number (.integer i) => IntegerFits i
  | _ => True

/-- No object has a key twice, and every integer fits 64 bits. -/
def WellFormed (j : Json) : Prop := j.Everywhere Proper

/-- A float whose text reads back to it. -/
def FloatReadsBack (x : Float) : Prop :=
  Number.read? (Number.text (.float x)) = some (.float x, [])

/-- What `FloatsReadBack` asks of a document apart from its parts. -/
def FloatProper : Json → Prop
  | .number (.float x) => FloatReadsBack x
  | _ => True

theorem floatProper_of_ne {j : Json} (h : ∀ x, j ≠ .number (.float x)) : FloatProper j := by
  unfold FloatProper
  split
  next x => exact absurd rfl (h x)
  next => trivial

/-- Every float in a document reads back from its text. -/
def FloatsReadBack (j : Json) : Prop := j.Everywhere FloatProper

theorem wellFormed_null : Json.null.WellFormed := trivial

theorem wellFormed_bool (b : Bool) : (Json.bool b).WellFormed := trivial

theorem wellFormed_string (s : String) : (Json.string s).WellFormed := trivial

theorem wellFormed_float (x : Float) : (Json.number (.float x)).WellFormed := trivial

theorem wellFormed_integer {i : Int} :
    (Json.number (.integer i)).WellFormed ↔ IntegerFits i := by
  rw [WellFormed, Everywhere, Proper]
  all_goals simp

theorem wellFormed_ofNat {n : Nat} (h : n < wordLimit) : (Json.ofNat n).WellFormed :=
  wellFormed_integer.mpr ⟨by omega, by omega⟩

theorem wellFormed_array {items : List Json} :
    (Json.array items).WellFormed ↔ ∀ j ∈ items, j.WellFormed := by
  simp [WellFormed, everywhere_array, Proper]

theorem wellFormed_object {entries : List (String × Json)} :
    (Json.object entries).WellFormed ↔
      (Entries.keys entries).Nodup ∧ ∀ e ∈ entries, e.2.WellFormed := by
  simp [WellFormed, everywhere_object, Proper]

theorem floatsReadBack_array {items : List Json} :
    (Json.array items).FloatsReadBack ↔ ∀ j ∈ items, j.FloatsReadBack := by
  simp [FloatsReadBack, everywhere_array, FloatProper]

theorem floatsReadBack_object {entries : List (String × Json)} :
    (Json.object entries).FloatsReadBack ↔ ∀ e ∈ entries, e.2.FloatsReadBack := by
  simp [FloatsReadBack, everywhere_object, FloatProper]

/-- A document without parts that is no float. -/
theorem floatsReadBack_of_atom {j : Json} (hkind : j.kind ≠ .float) (hparts : j.parts = []) :
    j.FloatsReadBack := by
  cases j with
  | null | bool | string => trivial
  | number n =>
    cases n with
    | integer i => trivial
    | float x => exact absurd rfl hkind
  | array items =>
    obtain rfl : items = [] := hparts
    exact floatsReadBack_array.mpr fun p hp => nomatch hp
  | object entries =>
    obtain rfl : entries = [] := List.map_eq_nil_iff.mp hparts
    exact floatsReadBack_object.mpr fun p hp => nomatch hp

end CallSampler.Json
