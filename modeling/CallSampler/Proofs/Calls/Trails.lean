import CallSampler.Proofs.Calls.Accounting

/-!
# The calls that a run records

A store keeps samples, and not the arguments that they were made of. What a run records is therefore
read off the run as it is watched: of the interceptions, those whose capture returned (`Trail`). At
the end of a run each store has recorded the calls of the trail that are for it and nothing else,
and every one of them was captured down to the depth limit that its interceptor holds
(`Watches.records`).
-/

namespace CallSampler

/-! ## Recorded calls -/

namespace RecordedCall

/-- The store with the call in it. -/
def into (o : Overflow) (s : Store) (c : RecordedCall) : Store :=
  s.keep o c.label c.samples c.paramNames

/-- What one call leaves in a store, all calls do. -/
theorem foldl_into_same {α : Type} {o : Overflow} {f : Store → α}
    (hf : ∀ s c, f (into o s c) = f s) (calls : List RecordedCall) (s : Store) :
    f (calls.foldl (into o) s) = f s := by
  induction calls generalizing s with
  | nil => rfl
  | cons c rest ih => rw [List.foldl_cons, ih, hf]

end RecordedCall

theorem Store.maxDepth_keep (o : Overflow) (label : String) (samples : List Sample)
    (paramNames : List String) (s : Store) :
    (s.keep o label samples paramNames).maxDepth = s.maxDepth := by
  unfold keep
  split <;> rfl

theorem Store.path_keep (o : Overflow) (label : String) (samples : List Sample)
    (paramNames : List String) (s : Store) :
    (s.keep o label samples paramNames).path = s.path := by
  unfold keep
  split <;> rfl

namespace Interception

/-- Whether the capture returned and the samples went to a store. -/
def recordsIn (i : Nat) (c : Interception) : Bool := c.store == i && c.captured.toBool

/-- What a store is once it has recorded the samples, if there are any. -/
def record (o : Overflow) (s : Store) (c : Interception) : Store :=
  match c.captured with
  | .ok samples => s.keep o c.label samples c.paramNames
  | .error _ => s

/-- The call, if its capture returned. -/
def recorded? (c : Interception) : Option RecordedCall :=
  if c.captured.toBool then some c.toRecordedCall else none

/-- The recorded calls of some interceptions and of all that they caused, in the order in which they
were. -/
def recorded (calls : List Interception) : List RecordedCall := (allOf calls).filterMap recorded?

section Recording

variable {P : Nat → Nat → Prop} {c : Interception} {calls : List Interception}

theorem stores_after (c : Interception) (w : World) (i : Nat) :
    (c.after w).stores[i]? =
      w.stores[i]?.map fun s => if c.recordsIn i then c.record w.overflow s else s := by
  unfold recordsIn record
  cases hc : c.captured with
  | ok samples =>
    rw [after_of_ok hc]
    simp only [World.onStore, Array.getElem?_modify, Except.toBool, Bool.and_true, beq_iff_eq]
    by_cases hi : c.store = i
    · simp [hi]
    · simp [hi]
  | error payload =>
    rw [after_of_error hc]
    simp [World.notify, Except.toBool]

/-- A store records the samples that are for it, one interception after the other. -/
theorem stores_foldl_after (calls : List Interception) (w : World) (i : Nat) :
    (calls.foldl (fun w c => c.after w) w).stores[i]? =
      w.stores[i]?.map fun s => (calls.filter (recordsIn i)).foldl (record w.overflow) s := by
  induction calls generalizing w with
  | nil => simp
  | cons c rest ih =>
    rw [List.foldl_cons, ih, stores_after, Option.map_map, overflow_after]
    congr 1
    funext s
    by_cases hc : c.recordsIn i
    · simp [hc]
    · simp [hc]

/-- What an interception lists is what its capture returned. -/
theorem Faithful.samples_eq (h : c.Faithful P) {samples : List Sample}
    (hc : c.captured = .ok samples) : c.samples = samples ∧ c.Complete := by
  obtain ⟨w, hw⟩ := h.captured samples hc
  have hsamples : c.samples = samples := by
    rw [RecordedCall.samples, hw]
  exact ⟨hsamples, w, by rw [hsamples]; exact hw⟩

/-- Recording interceptions is recording their calls. -/
theorem foldl_record (o : Overflow) (hcalls : ∀ c ∈ calls, c.Faithful P) (i : Nat) (s : Store) :
    (calls.filter (recordsIn i)).foldl (record o) s =
      ((calls.filterMap recorded?).filter (·.store == i)).foldl (RecordedCall.into o) s := by
  induction calls generalizing s with
  | nil => rfl
  | cons c rest ih =>
    obtain ⟨hc, hrest⟩ := List.forall_mem_cons.mp hcalls
    cases hcaptured : c.captured with
    | ok samples =>
      have hsome : c.recorded? = some c.toRecordedCall := by
        rw [recorded?, hcaptured]
        rfl
      have hinto : c.record o s = c.toRecordedCall.into o s := by
        rw [record, hcaptured, RecordedCall.into, (hc.samples_eq hcaptured).1]
      rw [List.filterMap_cons_some hsome, List.filter_cons, List.filter_cons]
      have hin : c.recordsIn i = (c.store == i) := by
        rw [recordsIn, hcaptured]
        exact Bool.and_true _
      rw [hin]
      split
      next => rw [List.foldl_cons, List.foldl_cons, hinto, ih hrest]
      next => exact ih hrest s
    | error payload =>
      have hnone : c.recorded? = none := by
        rw [recorded?, hcaptured]
        rfl
      have hout : c.recordsIn i = false := by
        rw [recordsIn, hcaptured]
        exact Bool.and_false _
      rw [List.filterMap_cons_none hnone, List.filter_cons_of_neg (by simp [hout])]
      exact ih hrest s

end Recording

end Interception

/-! ## Trails -/

/-- The calls that a run records when it starts in a world, in the order in which they are. -/
abbrev Trail : Type := World → List RecordedCall

/-- What is recorded by a run that is watched. -/
def Watching.trail {α : Type} (x : Watching α) : Trail := fun w =>
  Interception.recorded (x (.start w)).2.ended

section Records

variable {α : Type} {P : Nat → Nat → Prop} {Q : α → Prop} {w w' : World}

/-- From one world to another the stores recorded some calls and nothing else, and all interceptors
that made them or are in the heap then obey a rule. -/
structure Recorded (P : Nat → Nat → Prop) (w w' : World) (calls : List RecordedCall) : Prop where
  stores : ∀ k : Nat, w'.stores[k]? =
    w.stores[k]?.map fun s =>
      (calls.filter (·.store == k)).foldl (RecordedCall.into w.overflow) s
  calls : ∀ c ∈ calls, P c.store c.maxDepth ∧ c.Complete
  heap : w'.heap.Obeys P
  overflow : w'.overflow = w.overflow

theorem recorded_nothing (hstores : w'.stores = w.stores) (hheap : w'.heap.Obeys P)
    (hoverflow : w'.overflow = w.overflow) : Recorded P w w' [] where
  stores := fun k => by simp [hstores]
  calls := fun c hc => nomatch hc
  heap := hheap
  overflow := hoverflow

theorem Recorded.trans {w₁ w₂ : World} {calls more : List RecordedCall}
    (h : Recorded P w w₁ calls) (h' : Recorded P w₁ w₂ more) :
    Recorded P w w₂ (calls ++ more) where
  stores := by
    intro k
    rw [h'.stores, h.stores, h.overflow, Option.map_map, List.filter_append]
    simp only [List.foldl_append, Function.comp_def]
  calls := List.forall_mem_append.mpr ⟨h.calls, h'.calls⟩
  heap := h'.heap
  overflow := h'.overflow.trans h.overflow

/-- Wherever the heap obeys the rule, a run records the calls of a trail, and returns something with
the property `Q` if it returns. -/
def Records (P : Nat → Nat → Prop) (Q : α → Prop) (x : Host α) (t : Trail) : Prop :=
  ∀ w, w.heap.Obeys P → Recorded P w (x w).2 (t w) ∧ ∀ a, (x w).1 = .ok a → Q a

/-- What keeps to the heap records nothing. -/
theorem Host.Keeps.records {x : Host α} (h : x.Keeps P Q) : Records P Q x fun _ => [] := by
  intro w hw
  have hstores : (x w).2.stores = w.stores := by rw [h.heapOnly w]
  have hoverflow : (x w).2.overflow = w.overflow := by rw [h.heapOnly w]
  exact ⟨recorded_nothing hstores (h.heap w hw) hoverflow, h.value w hw⟩

/-- A run that is watched records its trail. -/
theorem Watches.records {x : Watching α} {y : Host α} (h : Watches P Q x y) :
    Records P Q y x.trail := by
  intro w hw
  obtain ⟨herase, ⟨calls, haccounts⟩, hheap, hvalue⟩ := h (.start w) hw
  have herase : y w = ((x (.start w)).1, (x (.start w)).2.world) := herase
  have htrail : x.trail w = Interception.recorded calls := by
    rw [Watching.trail, haccounts.ended]
    rfl
  have hworld : (x (.start w)).2.world =
      { Interception.afterAll calls w with heap := (x (.start w)).2.world.heap } := haccounts.world
  rw [herase, htrail]
  refine ⟨⟨fun k => ?_, fun c hc => ?_, hheap, ?_⟩, hvalue⟩
  · rw [hworld]
    show (Interception.afterAll calls w).stores[k]? = _
    rw [Interception.afterAll, Interception.stores_foldl_after]
    congr 1
    funext s
    exact Interception.foldl_record _ haccounts.faithful k s
  · obtain ⟨d, hd, hsome⟩ := List.mem_filterMap.mp hc
    have hfaithful := haccounts.faithful d hd
    unfold Interception.recorded? at hsome
    cases hcaptured : d.captured with
    | ok samples =>
      rw [hcaptured] at hsome
      cases hsome
      exact ⟨hfaithful.rule, (hfaithful.samples_eq hcaptured).2⟩
    | error payload =>
      rw [hcaptured] at hsome
      cases hsome
  · rw [hworld]
    exact Interception.overflow_afterAll calls w

end Records

end CallSampler
