import CallSampler.Proofs.Entries
import CallSampler.Proofs.Value.KeyEquality
import CallSampler.Value.Heap

/-!
# Dict cells

A dict cell that starts out empty and is filled by inserts is a map in order of insertion, whatever
the keys are and whatever is inserted into other cells in between: its keys stay separate, an insert
changes what is found under its key and under no other, a key that is present keeps its place and
its spelling, and an absent one goes to the end (`dict_ordered`).
-/

namespace CallSampler

/-- An insert that a host does. -/
structure Insertion where
  target : Value
  key : Value
  item : Value

namespace Heap

variable {h : Heap} {cell : Nat}

def insertAll (insertions : List Insertion) (h : Heap) : Heap :=
  insertions.foldl (fun h i => (h.insert i.target i.key i.item).2) h

/-- A cell is a map in order of insertion. -/
structure OrderedMap (cell : Nat) (h : Heap) : Prop where
  /-- No two stored keys are the same. -/
  separate : Entries.Separate Value.sameKey (h.dictAt cell)
  get?_insert : ∀ key item k, (h.insert (.dict cell) key item).2.get? (.dict cell) k =
    if Value.sameKey key k then some item else h.get? (.dict cell) k
  /-- Where a key is present, its entry alone changes, and of that only the value. -/
  present : ∀ before e after key item, h.dictAt cell = before ++ e :: after →
    Value.sameKey e.1 key →
      (h.insert (.dict cell) key item).2.dictAt cell = before ++ (e.1, item) :: after
  absent : ∀ key item, (∀ e ∈ h.dictAt cell, Value.sameKey e.1 key = false) →
    (h.insert (.dict cell) key item).2.dictAt cell = h.dictAt cell ++ [(key, item)]

theorem size_dicts_insert (h : Heap) (target key item : Value) :
    (h.insert target key item).2.dicts.size = h.dicts.size := by
  cases target with
  | dict cell => exact Array.size_modify ..
  | _ => rfl

theorem dictAt_insert (hcell : cell < h.dicts.size) (key item : Value) :
    (h.insert (.dict cell) key item).2.dictAt cell =
      Entries.put Value.sameKey key item (h.dictAt cell) := by
  simp [insert, dictAt, Array.getElem_modify, hcell]

/-- An insert puts an entry into a cell, or leaves the cell alone. -/
theorem dictAt_insert_cases (hcell : cell < h.dicts.size) (target key item : Value) :
    (h.insert target key item).2.dictAt cell = Entries.put Value.sameKey key item (h.dictAt cell) ∨
      (h.insert target key item).2.dictAt cell = h.dictAt cell := by
  cases target with
  | dict other =>
    by_cases hsame : other = cell
    · subst hsame
      exact .inl (dictAt_insert hcell key item)
    · exact .inr (by simp [insert, dictAt, Array.getElem?_modify, hsame])
  | _ => exact .inr rfl

theorem separate_insertAll (hcell : cell < h.dicts.size)
    (hs : Entries.Separate Value.sameKey (h.dictAt cell)) (insertions : List Insertion) :
    cell < (h.insertAll insertions).dicts.size ∧
      Entries.Separate Value.sameKey ((h.insertAll insertions).dictAt cell) := by
  induction insertions generalizing h with
  | nil => exact ⟨hcell, hs⟩
  | cons i rest ih =>
    refine ih (by rwa [size_dicts_insert]) ?_
    rcases dictAt_insert_cases hcell i.target i.key i.item with heq | heq
    · rw [heq]
      exact hs.put i.key i.item
    · rw [heq]
      exact hs

theorem orderedMap_of_separate (hcell : cell < h.dicts.size)
    (hs : Entries.Separate Value.sameKey (h.dictAt cell)) : OrderedMap cell h where
  separate := hs
  get?_insert := by
    intro key item k
    rw [get?, get?, dictAt_insert hcell]
    exact @Entries.find?_put _ _ ⟨Value.sameKey⟩ Value.partialEquivBEq_sameKey key k item _
  present := by
    intro before e after key item hentries hkey
    rw [dictAt_insert hcell, hentries]
    rw [hentries] at hs
    exact @Entries.put_of_beq _ _ _ ⟨Value.sameKey⟩ Value.partialEquivBEq_sameKey _ _ _ hs hkey item
  absent := by
    intro key item habsent
    rw [dictAt_insert hcell]
    refine Entries.put_of_forall fun k hk => ?_
    obtain ⟨e, he, rfl⟩ := List.mem_map.mp hk
    exact habsent e he

/-- Inserts keep the keys of a dict separate that starts out empty. -/
theorem separate_filled (hempty : h.dicts[cell]? = some []) (insertions : List Insertion) :
    cell < (h.insertAll insertions).dicts.size ∧
      Entries.Separate Value.sameKey ((h.insertAll insertions).dictAt cell) := by
  refine separate_insertAll (Array.getElem?_eq_some_iff.mp hempty).1 ?_ insertions
  rw [dictAt, hempty]
  exact .nil

/-- The cell started out as an empty dict, and inserts did the rest. -/
def FilledByInserts (cell : Nat) (h : Heap) : Prop :=
  ∃ (start : Heap) (insertions : List Insertion), start.dicts[cell]? = some [] ∧
    h.dictAt cell = (start.insertAll insertions).dictAt cell

theorem separate_of_filledByInserts (hfilled : h.FilledByInserts cell) :
    Entries.Separate Value.sameKey (h.dictAt cell) := by
  obtain ⟨start, insertions, hempty, hcell⟩ := hfilled
  rw [hcell]
  exact (separate_filled hempty insertions).2

/-- A dict cell that inserts have filled is a map in order of insertion. Key equality, by which it
goes, is symmetric and transitive, and a key is the same as itself unless a float in it is not a
number, which is equal to nothing; a comparison goes one level deeper for each nested tuple, and no
deeper. -/
theorem dict_ordered (hempty : h.dicts[cell]? = some []) (insertions : List Insertion) :
    (∀ a b, Value.sameKey a b = Value.sameKey b a) ∧
    (∀ a b c, Value.sameKey a b → Value.sameKey b c → Value.sameKey a c) ∧
    (∀ a, Value.sameKey a a = a.nanFree) ∧
    (∀ a b, Value.sameKeyWithin (a.tupleLevels + 1) a b = some (Value.sameKey a b)) ∧
    (∀ x y : Float, x.isNaN → Value.sameKey (.float x) (.float y) = false) ∧
    Value.sameKey (.float 0.0) (.float (-0.0)) ∧
    OrderedMap cell (h.insertAll insertions) := by
  obtain ⟨hcell, hs⟩ := separate_filled hempty insertions
  exact ⟨Value.sameKey_comm, fun a b c => Value.sameKey_trans, Value.sameKey_self,
    fun a b => Value.sameKeyWithin_eq (Nat.lt_succ_self _) b,
    fun x y hx => Value.float_beq_of_isNaN hx y, by decide, orderedMap_of_separate hcell hs⟩

/-- Inserts of the two zeros inside tuples, twice of what is not a number, and of the dict as a key
of itself. -/
def zerosAndSelf : List Insertion :=
  let negativeZero := Float.ofBits 0x8000000000000000
  let notANumber := Float.ofBits 0x7ff8000000000000
  [⟨.dict 0, .tuple [.float 0, .str "a"], .int 1⟩,
    ⟨.dict 0, .float notANumber, .int 2⟩,
    ⟨.dict 0, .dict 0, .dict 0⟩,
    ⟨.dict 0, .tuple [.float negativeZero, .str "a"], .int 3⟩,
    ⟨.dict 0, .float notANumber, .int 4⟩,
    ⟨.dict 0, .dict 0, .int 5⟩]

theorem dict_ordered_zerosAndSelf :
    (empty.newDict []).2.dicts[0]? = some [] ∧
      OrderedMap 0 ((empty.newDict []).2.insertAll zerosAndSelf) ∧
      (((empty.newDict []).2.insertAll zerosAndSelf).dictAt 0).map (fun e => e.2.asInt) =
        [some 3, some 2, some 5, some 4] :=
  ⟨rfl, (dict_ordered rfl zerosAndSelf).2.2.2.2.2.2, by decide⟩

end Heap

end CallSampler
