import CallSampler.Proofs.Entries
import CallSampler.Proofs.Store.History
import CallSampler.Proofs.Store.Reload

/-!
# Calls of different functions

A call reads and changes the record of its own function and no other. So what becomes of a record is
what the calls of its function do to it, one after the other, whatever was called in between
(`get?_recordAll`); the names of other functions only decide where a new name is put
(`names_recordAll`). Two orders of the same calls therefore leave the same records as long as the
calls of each single function come in the same order (`Reordered`), and the names of the functions
that are new are the same in another order (`interleavings_agree`).
-/

namespace CallSampler

/-- What is kept of a function, if anything was, after one more call of it. -/
def Record.afterCall (capacity : Nat) (kept? : Option Record) (c : Recording) : Option Record :=
  some ((kept?.getD (.fresh c.paramNames)).count capacity c.samples c.paramNames)

namespace Store

variable {s s' t t' : Store} {calls calls' calls'' : List Recording} {a b : Recording}

/-! ## One function -/

/-- The calls of a function do to its record what they do when nothing else is called. -/
theorem get?_recordAll (s : Store) (calls : List Recording) (name : String) :
    (s.recordAll calls).get? name =
      (callsOf name calls).foldl (Record.afterCall s.capacity) (s.get? name) := by
  induction calls generalizing s with
  | nil => rfl
  | cons c rest ih =>
    have hrest : (s.recordAll (c :: rest)).get? name = ((s.record c).recordAll rest).get? name :=
      rfl
    rw [hrest, ih, get?_record]
    by_cases hname : c.name = name
    · have hcalls : callsOf name (c :: rest) = c :: callsOf name rest := by
        simp [callsOf, hname]
      rw [if_pos hname, hcalls, hname]
      rfl
    · have hcalls : callsOf name (c :: rest) = callsOf name rest := by
        simp [callsOf, hname]
      rw [if_neg hname, hcalls]
      rfl

/-- New names are put behind the others, in the order in which they are first called. -/
theorem names_recordAll (s : Store) (calls : List Recording) :
    (s.recordAll calls).names =
      s.names ++ ((calls.map Recording.name).filter (· ∉ s.names)).eraseDups := by
  rw [← Entries.foldl_addNew]
  induction calls generalizing s with
  | nil => rfl
  | cons c rest ih =>
    have hrest : (s.recordAll (c :: rest)).names = ((s.record c).recordAll rest).names := rfl
    rw [hrest, ih, record, names_apply, List.map_cons, List.foldl_cons]

/-! ## Other orders of the same calls -/

/-- The same calls in an order that keeps the order of the calls of each single function. -/
structure Reordered (calls calls' : List Recording) : Prop where
  perm : calls.Perm calls'
  order : ∀ name, callsOf name calls = callsOf name calls'

theorem Reordered.trans (h : Reordered calls calls') (h' : Reordered calls' calls'') :
    Reordered calls calls'' where
  perm := h.perm.trans h'.perm
  order := fun name => (h.order name).trans (h'.order name)

/-- Neighbours change places if they are calls of different functions. -/
theorem reordered_swap (h : a.name ≠ b.name) (before after : List Recording) :
    Reordered (before ++ a :: b :: after) (before ++ b :: a :: after) where
  perm := (List.Perm.swap b a after).append_left before
  order := fun name => by
    by_cases ha : a.name = name
    · have hb : b.name ≠ name := fun hb => h (ha.trans hb.symm)
      simp [callsOf, ha, hb]
    · simp [callsOf, List.filter_cons, ha]

/-- Two stores have the same records, and of the names of their functions those that an earlier
store had are in the same order, in front of the others. -/
structure AgreeSince (s t t' : Store) : Prop where
  records : ∀ name, t.get? name = t'.get? name
  snapshot : t.snapshot = t'.snapshot
  names : ∃ added added', t.names = s.names ++ added ∧ t'.names = s.names ++ added' ∧
    added.Perm added'

/-- What is found under every name decides which names there are. -/
theorem mem_names_iff_isSome (name : String) : name ∈ s.names ↔ (s.get? name).isSome :=
  Entries.isSome_find?_iff.symm

/-- Stores that find the same under every name have the same records in order of their names. -/
theorem snapshot_eq_of_get? (h : ∀ name, t.get? name = t'.get? name) :
    t.snapshot = t'.snapshot := by
  refine Entries.ext_of_ascending (Entries.ascending_sorted t.entries)
    (Entries.ascending_sorted t'.entries) fun name => ?_
  rw [snapshot, snapshot, Entries.find?_sorted t.distinct, Entries.find?_sorted t'.distinct]
  exact h name

/-- Stores that find the same have the same names, so those behind a common front are the same. -/
theorem perm_of_get? {front added added' : List String} (h : ∀ name, t.get? name = t'.get? name)
    (ht : t.names = front ++ added) (ht' : t'.names = front ++ added') : added.Perm added' := by
  have hnames : t.names.Perm t'.names := by
    refine (List.perm_ext_iff_of_nodup t.distinct t'.distinct).mpr fun name => ?_
    rw [← names, ← names, mem_names_iff_isSome, mem_names_iff_isSome, h]
  rw [ht, ht'] at hnames
  exact (List.perm_append_left_iff front).mp hnames

/-- Calls of different functions do not interfere. From any store, loaded or not, two orders of the
same calls that keep the order of each single function leave the same records, counts, names and
slots alike, and the same names behind those that the store had before. What is kept of a function
depends on nothing but what was kept of it before, how many samples a slot keeps, and its own calls:
any other store that kept the same of it, and any other calls among which its own are the same,
leave it the same. -/
theorem interleavings_agree (s : Store) (h : Reordered calls calls') :
    AgreeSince s (s.recordAll calls) (s.recordAll calls') ∧
    ∀ (s' : Store) (others : List Recording) (name : String), s'.capacity = s.capacity →
      s'.get? name = s.get? name → callsOf name others = callsOf name calls →
      (s'.recordAll others).get? name = (s.recordAll calls).get? name := by
  have hrecords : ∀ name, (s.recordAll calls).get? name = (s.recordAll calls').get? name :=
    fun name => by rw [get?_recordAll, get?_recordAll, h.order]
  refine ⟨⟨hrecords, snapshot_eq_of_get? hrecords, ?_⟩, fun s' others name hcapacity hkept hcalls =>
    ?_⟩
  · have hnames := names_recordAll s calls
    have hnames' := names_recordAll s calls'
    exact ⟨_, _, hnames, hnames', perm_of_get? hrecords hnames hnames'⟩
  · rw [get?_recordAll, get?_recordAll, hcapacity, hkept, hcalls]

/-- A store that was loaded with one function and keeps one sample of a parameter is called for that
function, a new one, the first again, and another new one; or for the last of these first. -/
theorem interleavings_agree_two_new :
    let text := "\x7b\"f\": \x7b\"callCount\": 2, \"paramData\": \x7b\"0\": [1, 2]\x7d\x7d\x7d"
    let d := (Disk.empty []).put ["c.json".toList] (.file (.text text))
    let s := ((fresh { text := "c.json" } 1 10).load d).1
    let f : Recording := .ofInteger "f" 3
    let f' : Recording := .ofInteger "f" 4
    let g : Recording := .ofInteger "g" 5
    let h : Recording := .ofInteger "h" 6
    let calls := [f, g, f', h]
    let calls' := [f, h, g, f']
    Reordered calls calls' ∧ AgreeSince s (s.recordAll calls) (s.recordAll calls') ∧
      (s.recordAll calls).names = ["f"] ++ ["g", "h"] ∧
      (s.recordAll calls').names = ["f"] ++ ["h", "g"] ∧
      (s.recordAll [f, f']).get? "f" = (s.recordAll calls).get? "f" := by
  intro text d s f f' g h calls calls'
  have hbehind : Reordered calls [f, g, h, f'] := reordered_swap (by decide) [f, g] []
  have hreordered : Reordered calls calls' :=
    hbehind.trans (reordered_swap (by decide) [f] [f'])
  obtain ⟨hagree, halone⟩ := interleavings_agree s hreordered
  exact ⟨hreordered, hagree, by decide +kernel, by decide +kernel, halone s _ "f" rfl rfl rfl⟩

end Store

end CallSampler
