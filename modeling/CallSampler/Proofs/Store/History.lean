import CallSampler.Proofs.Store.Loading

/-!
# A store as a log

A store forgets samples, but nothing about what it forgets depends on anything but the calls of one
function: what is kept of a function is a view of the record that was loaded for it and the list of
its calls since (`History`). One call lengthens that list (`History.Explains.record`), and so
any number of calls leaves the view of the whole history (`explained_recordAll`).
-/

namespace CallSampler

/-- The record that the file at a path holds for a function. -/
def FileEntries.loaded? (d : Disk) (path : Path) (name : String) : Option Record :=
  match FileEntries.read d path with
  | .ok (some file) => Entries.get? name file.accepted
  | _ => none

/-- All that happened to one function: the record loaded for it, and its calls since. -/
structure History where
  loaded? : Option Record
  calls : List Recording

namespace History

/-- Every sample of a parameter since loading, in call order. -/
def pushed (h : History) (index : Nat) : List Json :=
  h.calls.flatMap fun r => Record.pushedTo index r.samples

/-- How many calls there were. -/
def callCount (h : History) : Nat :=
  ((h.loaded?.map Record.callCount).getD 0).toNat + h.calls.length

/-- The last names that a call supplied, and the loaded ones if none did. -/
def paramNames (h : History) : List String :=
  ((h.calls.map Recording.paramNames).filter (!·.isEmpty)).getLast?.getD
    ((h.loaded?.map Record.paramNames).getD [])

/-- The samples loaded for a parameter, oldest first. -/
def loadedSlot? (h : History) (index : Nat) : Option (List Json) :=
  h.loaded?.bind fun r => r.samples? index

/-- What a store of a capacity that keeps a record, or none, has to show for a history: its count is
the number of calls, as far as a machine word holds it. A slot is kept if it was loaded or pushed
to, and then holds the newest of all its samples. -/
structure Explains (capacity : Nat) (h : History) (kept? : Option Record) : Prop where
  kept : kept?.isSome ↔ h.loaded?.isSome ∨ h.calls ≠ []
  callCount : (kept?.getD (.fresh [])).callCount.toNat = h.callCount % wordLimit
  paramNames : (kept?.getD (.fresh [])).paramNames = h.paramNames
  slot : ∀ index, (kept?.getD (.fresh [])).samples? index =
    Record.slotAfter capacity (h.loadedSlot? index) (h.pushed index)

variable {capacity : Nat} {h : History} {kept? : Option Record}

/-- One more call. -/
def call (h : History) (r : Recording) : History := { h with calls := h.calls ++ [r] }

theorem pushed_call (r : Recording) (index : Nat) :
    (h.call r).pushed index = h.pushed index ++ Record.pushedTo index r.samples := by
  simp [call, pushed]

theorem paramNames_call (r : Recording) :
    (h.call r).paramNames = if r.paramNames.isEmpty then h.paramNames else r.paramNames := by
  by_cases hr : r.paramNames.isEmpty
  · simp [call, paramNames, hr]
  · simp [call, paramNames, hr]

/-- A loaded record explains itself once it is trimmed. -/
theorem explains_trim (capacity : Nat) (loaded? : Option Record) :
    Explains capacity { loaded?, calls := [] } (loaded?.map (Record.trim capacity)) where
  kept := by simp
  callCount := by
    cases loaded? with
    | none => rfl
    | some r => exact (Nat.mod_eq_of_lt (Word.toNat_lt r.callCount)).symm
  paramNames := by cases loaded? <;> rfl
  slot := fun index => by
    cases loaded? with
    | none => rfl
    | some r =>
      simp only [Option.map_some, Option.getD_some, Record.samples?_trim]
      exact (Record.slotAfter_nil _).symm

/-- Counting a call that names its parameters forgets what a new record was named. -/
theorem count_fresh (r : Recording) :
    (kept?.getD (.fresh r.paramNames)).count capacity r.samples r.paramNames =
      (kept?.getD (.fresh [])).count capacity r.samples r.paramNames := by
  cases kept? with
  | some old => rfl
  | none =>
    cases hr : r.paramNames with
    | nil => rfl
    | cons name rest => rfl

/-- What a call does to the record of its function is what it does to the history. -/
theorem Explains.record (hc : 0 < capacity) (he : h.Explains capacity kept?) (r : Recording) :
    (h.call r).Explains capacity
      (some ((kept?.getD (.fresh r.paramNames)).count capacity r.samples r.paramNames)) where
  kept := by simp [call]
  callCount := by
    rw [count_fresh, Option.getD_some, Record.callCount_count, Word.toNat_add_one, he.callCount,
      Nat.mod_add_mod, History.callCount, History.callCount, call, List.length_append,
      List.length_singleton, Nat.add_assoc]
  paramNames := by
    rw [count_fresh, Option.getD_some, Record.paramNames_count, he.paramNames, paramNames_call]
  slot := fun index => by
    rw [count_fresh, Option.getD_some, pushed_call]
    exact Record.samples?_count hc r.samples r.paramNames (he.slot index)

end History

namespace Store

variable {s : Store} {d : Disk}

theorem get?_load (name : String) :
    (s.load d).1.get? name = (FileEntries.loaded? d s.path name).map (Record.trim s.capacity) := by
  unfold load FileEntries.loaded?
  split
  next h => rw [h]; rfl
  next file h =>
    rw [h, get?, entries_take (FileEntries.nodup_of_read h)]
    exact Entries.find?_map_value _ _ _
  next h => rw [h]; rfl

/-- The part of a list of calls that one history consists of. -/
def callsOf (name : String) (calls : List Recording) : List Recording :=
  calls.filter fun r => r.name == name

/-- Calls leave a store explained by every function's own history. -/
theorem explained_recordAll (name : String) (loaded? : Option Record)
    (before calls : List Recording)
    (h : History.Explains s.capacity { loaded?, calls := callsOf name before } (s.get? name)) :
    History.Explains s.capacity { loaded?, calls := callsOf name (before ++ calls) }
      ((s.recordAll calls).get? name) := by
  induction calls generalizing s before with
  | nil =>
    rw [List.append_nil]
    exact h
  | cons r rest ih =>
    rw [List.append_cons]
    refine ih (before ++ [r]) (s := s.record r) ?_
    rw [get?_record]
    by_cases hr : r.name = name
    · have hcalls : callsOf name (before ++ [r]) = callsOf name before ++ [r] := by
        simp [callsOf, hr]
      rw [if_pos hr, hr, hcalls]
      exact h.record s.capacity_pos r
    · have hcalls : callsOf name (before ++ [r]) = callsOf name before := by
        simp [callsOf, hr]
      rw [if_neg hr, hcalls]
      exact h

/-- A store that was made from whatever a file holds, and then recorded any calls, shows of every
function exactly what its history tells; in particular no slot is over the capacity. -/
theorem refines_history (d : Disk) (path : Path) (maxSamples maxDepth : Nat)
    (calls : List Recording) (name : String) :
    let s := ((fresh path maxSamples maxDepth).load d).1.recordAll calls
    let h : History := { loaded? := FileEntries.loaded? d path name, calls := callsOf name calls }
    h.Explains (max 1 maxSamples) (s.get? name) ∧
      ∀ r, s.get? name = some r → ∀ index samples, r.samples? index = some samples →
        samples = newest (max 1 maxSamples) ((h.loadedSlot? index).getD [] ++ h.pushed index) ∧
        samples.length ≤ max 1 maxSamples := by
  intro s h
  have he : h.Explains (max 1 maxSamples) (s.get? name) := by
    have hrun := explained_recordAll (s := ((fresh path maxSamples maxDepth).load d).1) name
      h.loaded? [] calls
    rw [capacity_load, get?_load] at hrun
    exact hrun (History.explains_trim (max 1 maxSamples) h.loaded?)
  refine ⟨he, fun r hr index samples hs => ?_⟩
  have hslot := he.slot index
  rw [hr, Option.getD_some, hs] at hslot
  have hsamples := congrArg (·.getD []) hslot
  simp only [Option.getD_some, Record.getD_slotAfter] at hsamples
  refine ⟨hsamples, ?_⟩
  rw [hsamples, length_newest]
  exact Nat.min_le_left _ _

end Store

end CallSampler
