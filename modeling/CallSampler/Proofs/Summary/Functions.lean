import CallSampler.Proofs.Entries
import CallSampler.Summary

/-!
# What a summary lists

Ranking records by their calls only changes their order, so a summary lists each record once
(`Summary.perm_ofRecords`), and a function has one slot for every index that its record has samples
at (`FunctionSummary.filter_slots`).
-/

namespace CallSampler

theorem firstAppearances_eq {α : Type} [DecidableEq α] (items : List α) :
    firstAppearances items = items.eraseDups := by
  rw [firstAppearances, Entries.foldl_addNew, List.nil_append, List.filter_eq_self.mpr (by simp)]

theorem map_newest {α β : Type} (f : α → β) (n : Nat) (items : List α) :
    (newest n items).map f = newest n (items.map f) := by
  rw [newest, newest, List.map_drop, List.length_map]

namespace Entries

/-- Where keys ascend, one entry at most has a key. -/
theorem filter_key_of_nodup {κ ν : Type} [BEq κ] [LawfulBEq κ] {entries : List (κ × ν)}
    (hn : (keys entries).Nodup) (key : κ) :
    entries.filter (fun e => e.1 == key) =
      ((find? (· == key) entries).map fun value => (key, value)).toList := by
  induction entries with
  | nil => rfl
  | cons e rest ih =>
    rw [keys_cons, List.nodup_cons] at hn
    by_cases he : e.1 = key
    · subst he
      have hrest : rest.filter (fun e' => e'.1 == e.1) = [] := by
        refine List.filter_eq_nil_iff.mpr fun e' he' hsame => hn.1 ?_
        rw [← eq_of_beq hsame]
        exact mem_keys_of_mem he'
      simp [find?, hrest]
    · have hbeq : (e.1 == key) = false := beq_false_of_ne he
      rw [List.filter_cons_of_neg (by simp [hbeq]), ih hn.2, find?, hbeq]
      rfl

end Entries

namespace FunctionSummary

theorem perm_insert (f : FunctionSummary) (fs : List FunctionSummary) :
    (f.insert fs).Perm (f :: fs) := by
  induction fs with
  | nil => exact .refl _
  | cons g rest ih =>
    unfold insert
    split
    next => exact .refl _
    next => exact (ih.cons g).trans (.swap f g rest)

/-- A function has the slots of its record, each summarized. -/
theorem filter_slots (name : String) (r : Record) (index : Nat) :
    (ofRecord name r).slots.filter (·.index == index) =
      ((r.samples? index).map fun samples => SlotSummary.ofSlot r (index, samples)).toList := by
  have hslots := Entries.filter_key_of_nodup (Entries.nodup_keys_of_ascending r.ascending) index
  have hfilter : (ofRecord name r).slots.filter (·.index == index) =
      (r.slots.filter fun slot => slot.1 == index).map (SlotSummary.ofSlot r) := by
    rw [ofRecord, List.filter_map]
    rfl
  rw [hfilter, hslots, Record.samples?]
  cases Entries.find? (· == index) r.slots <;> rfl

end FunctionSummary

namespace Summary

theorem perm_foldl_insert (fs done : List FunctionSummary) :
    (fs.foldl (fun fs f => f.insert fs) done).Perm (fs ++ done) := by
  induction fs generalizing done with
  | nil => exact .refl _
  | cons f rest ih =>
    rw [List.foldl_cons]
    exact (ih (f.insert done)).trans
      (((f.perm_insert done).append_left rest).trans List.perm_middle)

/-- A summary lists every record once. -/
theorem perm_ofRecords {entries : List (String × Record)} (hn : (Entries.keys entries).Nodup) :
    (ofRecords entries).functions.Perm
      (entries.map fun e => FunctionSummary.ofRecord e.1 e.2) := by
  have hranked := perm_foldl_insert
    ((Entries.sorted entries).map fun e => FunctionSummary.ofRecord e.1 e.2) []
  rw [List.append_nil] at hranked
  exact hranked.trans ((Entries.perm_sorted hn).map _)

theorem perm_names {entries : List (String × Record)} (hn : (Entries.keys entries).Nodup) :
    ((ofRecords entries).functions.map FunctionSummary.name).Perm (Entries.keys entries) := by
  have hperm := (perm_ofRecords hn).map FunctionSummary.name
  rwa [List.map_map] at hperm

theorem nodup_names {entries : List (String × Record)} (hn : (Entries.keys entries).Nodup) :
    ((ofRecords entries).functions.map FunctionSummary.name).Nodup :=
  (perm_names hn).nodup_iff.mpr hn

/-- What a summary lists is the record of some name. -/
theorem exists_of_mem {entries : List (String × Record)} (hn : (Entries.keys entries).Nodup)
    {f : FunctionSummary} (hf : f ∈ (ofRecords entries).functions) :
    ∃ r, Entries.get? f.name entries = some r ∧ f = FunctionSummary.ofRecord f.name r := by
  obtain ⟨⟨name, r⟩, he, rfl⟩ := List.mem_map.mp ((perm_ofRecords hn).mem_iff.mp hf)
  exact ⟨r, Entries.find?_of_mem hn he, rfl⟩

theorem mem_names_iff {entries : List (String × Record)} (hn : (Entries.keys entries).Nodup)
    {name : String} : name ∈ (ofRecords entries).functions.map FunctionSummary.name ↔
      (Entries.get? name entries).isSome := by
  rw [(perm_names hn).mem_iff, Entries.get?, Entries.isSome_find?_iff]

end Summary

end CallSampler
