import CallSampler.Record

/-!
# Slots

What storing and trimming samples do to one slot, and to a property of all samples. A slot is
described by what it held before and by what was pushed to it since: it holds the newest of both
together, and exists as soon as there is either (`slotAfter`).
-/

namespace CallSampler.Record

/-- The samples among some that land at an index, in order. -/
def pushedTo (index : Nat) (samples : List Sample) : List Json :=
  (samples.filter fun s => s.1 == index).map Prod.snd

/-- A slot of a capacity after it held some samples, if it existed at all, and others were pushed to
it. -/
def slotAfter (capacity : Nat) (before : Option (List Json)) (pushed : List Json) :
    Option (List Json) :=
  if before = none ∧ pushed = [] then none
  else some (newest capacity (before.getD [] ++ pushed))

variable {capacity : Nat} {r : Record}

/-! ## One slot -/

theorem samples?_push (s : Sample) (index : Nat) :
    (r.push capacity s).samples? index =
      if s.1 == index then some (pushBounded capacity ((r.samples? s.1).getD []) s.2)
      else r.samples? index := by
  unfold samples? push
  exact Entries.find?_putSorted _ _ _ _

theorem samples?_trim (index : Nat) :
    (r.trim capacity).samples? index = (r.samples? index).map (newest capacity) := by
  unfold samples? trim
  exact Entries.find?_map_value _ _ _

theorem pushedTo_append (index : Nat) (ss ts : List Sample) :
    pushedTo index (ss ++ ts) = pushedTo index ss ++ pushedTo index ts := by
  simp [pushedTo]

theorem slotAfter_nil (before : Option (List Json)) :
    slotAfter capacity before [] = before.map (newest capacity) := by
  cases before <;> simp [slotAfter]

theorem getD_slotAfter (before : Option (List Json)) (pushed : List Json) :
    (slotAfter capacity before pushed).getD [] = newest capacity (before.getD [] ++ pushed) := by
  unfold slotAfter
  split
  next h => simp [h.1, h.2, newest]
  next => rfl

theorem slotAfter_append_singleton (before : Option (List Json)) (pushed : List Json) (j : Json) :
    slotAfter capacity before (pushed ++ [j]) =
      some (newest capacity (before.getD [] ++ pushed ++ [j])) := by
  simp [slotAfter]

/-- One more sample continues the history of its slot and of no other. -/
theorem samples?_push_of (hc : 0 < capacity) {index : Nat} {before : Option (List Json)}
    {pushed : List Json} (h : r.samples? index = slotAfter capacity before pushed) (s : Sample) :
    (r.push capacity s).samples? index =
      slotAfter capacity before (pushed ++ pushedTo index [s]) := by
  rw [samples?_push]
  by_cases hs : s.1 = index
  · have hp : pushedTo index [s] = [s.2] := by simp [pushedTo, hs]
    rw [if_pos (by simp [hs]), hs, h, hp, getD_slotAfter, pushBounded_eq hc,
      newest_append_newest, slotAfter_append_singleton]
  · have hp : pushedTo index [s] = [] := by simp [pushedTo, hs]
    rw [if_neg (by simp [hs]), h, hp, List.append_nil]

/-- The samples of a call continue the history of every slot. -/
theorem samples?_foldl_push (hc : 0 < capacity) {index : Nat} {before : Option (List Json)}
    {pushed : List Json} (samples : List Sample)
    (h : r.samples? index = slotAfter capacity before pushed) :
    (samples.foldl (push capacity) r).samples? index =
      slotAfter capacity before (pushed ++ pushedTo index samples) := by
  induction samples generalizing r pushed with
  | nil => simpa [pushedTo] using h
  | cons s rest ih =>
    rw [List.foldl_cons, ih (samples?_push_of hc h s), List.append_assoc, ← pushedTo_append,
      List.singleton_append]

theorem samples?_count (hc : 0 < capacity) {index : Nat} {before : Option (List Json)}
    {pushed : List Json} (samples : List Sample) (paramNames : List String)
    (h : r.samples? index = slotAfter capacity before pushed) :
    (r.count capacity samples paramNames).samples? index =
      slotAfter capacity before (pushed ++ pushedTo index samples) :=
  samples?_foldl_push hc samples h

/-! ## What storing samples leaves alone -/

theorem callCount_foldl_push (samples : List Sample) :
    (samples.foldl (push capacity) r).callCount = r.callCount := by
  induction samples generalizing r with
  | nil => rfl
  | cons s rest ih => exact ih

theorem paramNames_foldl_push (samples : List Sample) :
    (samples.foldl (push capacity) r).paramNames = r.paramNames := by
  induction samples generalizing r with
  | nil => rfl
  | cons s rest ih => exact ih

@[simp] theorem callCount_count (samples : List Sample) (paramNames : List String) :
    (r.count capacity samples paramNames).callCount = r.callCount + 1 :=
  callCount_foldl_push samples

@[simp] theorem paramNames_rename (paramNames : List String) :
    (r.rename paramNames).paramNames = if paramNames.isEmpty then r.paramNames else paramNames :=
  rfl

@[simp] theorem paramNames_count (samples : List Sample) (paramNames : List String) :
    (r.count capacity samples paramNames).paramNames =
      if paramNames.isEmpty then r.paramNames else paramNames :=
  paramNames_foldl_push samples

/-! ## All slots -/

/-- Every slot is at an index and holds samples that have a property. -/
def Slots (P : Nat → List Json → Prop) (r : Record) : Prop :=
  ∀ slot ∈ r.slots, P slot.1 slot.2

variable {P : Nat → List Json → Prop}

theorem slots_fresh (paramNames : List String) : (fresh paramNames).Slots P := by
  intro slot h
  cases h

/-- A property of slots that pushing a sample keeps. -/
theorem Slots.push (h : r.Slots P) {s : Sample}
    (hpush : ∀ items, (items = [] ∨ P s.1 items) → P s.1 (pushBounded capacity items s.2)) :
    (r.push capacity s).Slots P := by
  intro slot hslot
  rcases Entries.mem_putSorted hslot with rfl | hslot
  · apply hpush
    cases hs : r.samples? s.1 with
    | none => exact Or.inl rfl
    | some items => exact Or.inr (h _ (Entries.mem_of_find? hs))
  · exact h slot hslot

/-- A property of slots that pushing the samples of a call keeps. -/
theorem Slots.count (h : r.Slots P) {samples : List Sample} (paramNames : List String)
    (hpush : ∀ s ∈ samples, ∀ items, (items = [] ∨ P s.1 items) →
      P s.1 (pushBounded capacity items s.2)) :
    (r.count capacity samples paramNames).Slots P := by
  suffices hs : ∀ r : Record, r.Slots P → (samples.foldl (Record.push capacity) r).Slots P from
    hs _ h
  clear h
  induction samples with
  | nil => exact fun r h => h
  | cons s rest ih =>
    obtain ⟨hfirst, hrest⟩ := List.forall_mem_cons.mp hpush
    exact fun r h => ih hrest _ (h.push hfirst)

/-- A property of slots that dropping the oldest samples keeps. -/
theorem Slots.trim (h : r.Slots P)
    (hnewest : ∀ i items, P i items → P i (newest capacity items)) :
    (r.trim capacity).Slots P := by
  intro slot hslot
  obtain ⟨old, hold, rfl⟩ := List.mem_map.mp hslot
  exact hnewest _ _ (h old hold)

/-- No slot holds more samples than the capacity. -/
abbrev Bounded (capacity : Nat) (r : Record) : Prop :=
  r.Slots fun _ items => items.length ≤ capacity

theorem Bounded.count (hc : 0 < capacity) (h : r.Bounded capacity) (samples : List Sample)
    (paramNames : List String) : (r.count capacity samples paramNames).Bounded capacity :=
  Slots.count h paramNames fun s _ items _ => by
    rw [pushBounded_eq hc, length_newest]
    omega

theorem bounded_trim : (r.trim capacity).Bounded capacity := by
  intro slot hslot
  obtain ⟨old, hold, rfl⟩ := List.mem_map.mp hslot
  simp only [length_newest]
  omega

/-- Trimming leaves a record alone whose slots are within the capacity. -/
theorem trim_of_bounded (h : r.Bounded capacity) : r.trim capacity = r := by
  have hs : r.slots.map (fun slot => (slot.1, newest capacity slot.2)) = r.slots := by
    have hid : ∀ slot ∈ r.slots, (slot.1, newest capacity slot.2) = id slot := fun slot hslot =>
      Prod.ext rfl (newest_of_length_le (h slot hslot))
    rw [List.map_congr_left hid, List.map_id]
  obtain ⟨callCount, paramNames, slots, ascending⟩ := r
  simp only [trim] at hs ⊢
  simp only [hs]

end CallSampler.Record
