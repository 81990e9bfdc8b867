import CallSampler.Call
import CallSampler.Proofs.Store.Acceptance
import CallSampler.Proofs.Store.Reload

/-!
# Names in order and records by name

A store keeps its names and its records in one list. Kept apart, as a list of names in the order in
which they were first seen and a map of records that ascends by name (`Ledger`), the two are changed
under guards of their own: a name is added if the map does not have it yet, and both are cleared
before a file is loaded. They stay in step under every operation (`Tracked.Sound`): the names are
those of the last file that are accepted, in order, and then those of the calls since, each where it
was first called (`Tracked.Sound.run`). So the two are at every time the names and the records of
the store, and what a save writes are all of the names in order, with one record each
(`run_ledger`).
-/

namespace CallSampler

/-- The names that were seen, in order, and apart from them the records by name. -/
structure Ledger where
  order : List String
  records : List (String × Record)

namespace Ledger

def empty : Ledger := { order := [], records := [] }

/-- The names with one more unless there is a record of it. -/
def see (l : Ledger) (name : String) : List String :=
  if Entries.has name l.records then l.order else l.order ++ [name]

/-- Count a call under a name, whose record is made if there is none. -/
def apply (capacity : Nat) (name : String) (samples : List Sample) (paramNames : List String)
    (l : Ledger) : Ledger :=
  let record := (Entries.get? name l.records).getD (.fresh paramNames)
  { order := l.see name
    records := Entries.putSorted name (record.count capacity samples paramNames) l.records }

/-- Take over an entry of a file. -/
def insert (capacity : Nat) (l : Ledger) (e : String × Record) : Ledger :=
  { order := l.see e.1, records := Entries.putSorted e.1 (e.2.trim capacity) l.records }

/-- What is left of a ledger when a file has been loaded: what is accepted of the file. -/
def load (d : Disk) (path : Path) (capacity : Nat) : Ledger :=
  match FileEntries.read d path with
  | .ok (some file) => file.accepted.foldl (insert capacity) empty
  | _ => empty

/-- The entries that are written: for each name in order its record, if there is one. -/
def document (l : Ledger) : List (String × Json) :=
  Entries.ofAssignments (l.order.filterMap fun name =>
    (Entries.get? name l.records).map fun r => (name, r.toJson))

/-- The ledger of a list of entries. -/
def ofEntries (entries : List (String × Record)) : Ledger :=
  { order := Entries.keys entries, records := Entries.sorted entries }

variable {entries : List (String × Record)}

theorem see_ofEntries (hn : (Entries.keys entries).Nodup) (name : String) :
    (ofEntries entries).see name =
      if name ∈ Entries.keys entries then Entries.keys entries
      else Entries.keys entries ++ [name] := by
  have hhas : Entries.has name (Entries.sorted entries) ↔ name ∈ Entries.keys entries := by
    rw [Entries.has, Entries.get?, Entries.find?_sorted hn]
    exact Entries.isSome_find?_iff
  unfold see ofEntries
  simp only [hhas]

/-- Both are changed as the list is that has both. -/
theorem apply_ofEntries (s : Store) (name : String) (samples : List Sample)
    (paramNames : List String) :
    (ofEntries s.entries).apply s.capacity name samples paramNames =
      ofEntries (s.apply name samples paramNames).entries := by
  have hget : Entries.get? name (Entries.sorted s.entries) = s.get? name :=
    Entries.find?_sorted s.distinct name
  have hnames := s.names_apply name samples paramNames
  have hrecords := Entries.sorted_put s.distinct name
    (((s.get? name).getD (.fresh paramNames)).count s.capacity samples paramNames)
  unfold apply
  rw [see_ofEntries s.distinct, ofEntries, ofEntries, hget]
  rw [Store.names] at hnames
  rw [hnames]
  unfold Store.apply Store.change Entries.set
  rw [hrecords]
  rfl

/-- Entries with new names are added at the end of the list. -/
theorem foldl_insert (capacity : Nat) {done todo : List (String × Record)}
    (hn : (Entries.keys (done ++ todo)).Nodup) :
    todo.foldl (insert capacity) (ofEntries done) =
      ofEntries (done ++ todo.map fun e => (e.1, e.2.trim capacity)) := by
  induction todo generalizing done with
  | nil => simp
  | cons e rest ih =>
    rw [Entries.keys_append] at hn
    have hnew : e.1 ∉ Entries.keys done := by
      intro hm
      exact (List.nodup_append.mp hn).2.2 e.1 hm e.1 List.mem_cons_self rfl
    have hstep : (ofEntries done).insert capacity e =
        ofEntries (done ++ [(e.1, e.2.trim capacity)]) := by
      rw [insert, see_ofEntries (List.nodup_append.mp hn).1, if_neg hnew]
      simp [ofEntries, Entries.sorted]
    rw [List.foldl_cons, hstep, ih (by simpa [Entries.keys] using hn)]
    simp

/-- A ledger that is loaded is that of the store that is loaded. -/
theorem load_eq (d : Disk) (s : Store) :
    load d s.path s.capacity = ofEntries (s.load d).1.entries := by
  unfold load Store.load
  cases h : FileEntries.read d s.path with
  | error e => rfl
  | ok file? =>
    cases file? with
    | none => rfl
    | some file =>
      have hn := FileEntries.nodup_of_read h
      have hfold := @foldl_insert s.capacity [] _ hn
      rw [List.nil_append] at hfold
      dsimp only
      rw [Store.entries_take hn]
      exact hfold

/-- Every name has its record, so all of the store is written. -/
theorem document_ofEntries (hn : (Entries.keys entries).Nodup) :
    (ofEntries entries).document = entries.map fun e => (e.1, e.2.toJson) := by
  have hlookup : ∀ name : String,
      ((Entries.get? name (Entries.sorted entries)).map fun r => (name, r.toJson)) =
        ((Entries.find? (· == name) entries).map fun r => (name, r)).map
          fun e => (e.1, e.2.toJson) := by
    intro name
    rw [Entries.get?, Entries.find?_sorted hn, Option.map_map]
    rfl
  unfold document ofEntries
  simp only [hlookup]
  rw [← List.map_filterMap, Entries.filterMap_keys hn,
    Entries.ofAssignments_of_nodup (by rwa [Entries.keys_map_value])]

end Ledger

/-! ## Operations -/

namespace FileEntries

variable {d : Disk} {path : Path}

/-- The names that are accepted of a file. -/
def acceptedNames (d : Disk) (path : Path) : List String :=
  match read d path with
  | .ok (some file) => Entries.keys file.accepted
  | _ => []

/-- They stand in the order in which they first occur in the text. -/
theorem acceptedNames_of_text {text : String} {assignments : List (String × Json)}
    (h : d.readText path = .ok text) (ht : (Json.object assignments).IsText text)
    (hl : (Json.object assignments).nesting ≤ Json.nestingLimit) :
    acceptedNames d path = (Entries.keys assignments).eraseDups.filter fun name =>
      (lastRecord? assignments name).isSome := by
  unfold acceptedNames
  rw [read_of_text h ht hl]
  dsimp only
  rw [ofEntries_settle]
  induction (Entries.keys assignments).eraseDups with
  | nil => rfl
  | cons name rest ih =>
    cases hr : lastRecord? assignments name <;> simp [hr, ih]

end FileEntries

namespace Store

/-- What is done with a store once it has been made. -/
inductive Operation where
  /-- Record a call by hand, in a world that its arguments are captured in. -/
  | record (w : World) (fuel : Nat) (name : String) (args : Arguments) (paramNames : List String)
  | apply (name : String) (samples : List Sample) (paramNames : List String)
  /-- Load the file again, whatever has become of it. -/
  | load (d : Disk)
  | save (d : Disk)

/-- A store after some operations, with what they were. -/
structure Tracked where
  store : Store
  ledger : Ledger
  /-- The disk at the last load. -/
  file : Disk
  /-- The names of the calls that were recorded since, in order. -/
  called : List String

namespace Tracked

/-- The store when its file has been loaded. -/
def load (d : Disk) (s : Store) : Tracked :=
  { store := (s.load d).1, ledger := Ledger.load d s.path s.capacity, file := d, called := [] }

def apply (name : String) (samples : List Sample) (paramNames : List String) (t : Tracked) :
    Tracked :=
  { t with
    store := t.store.apply name samples paramNames
    ledger := t.ledger.apply t.store.capacity name samples paramNames
    called := t.called ++ [name] }

/-- The store after one operation. A call whose capture fails is not recorded. -/
def after (t : Tracked) : Operation → Tracked
  | .record w fuel name args paramNames =>
    match (captureArguments (answer fuel) t.store.maxDepth args paramNames w).1 with
    | .ok samples => t.apply name samples paramNames
    | _ => t
  | .apply name samples paramNames => t.apply name samples paramNames
  | .load d => load d t.store
  | .save _ => t

def run (ops : List Operation) (t : Tracked) : Tracked := ops.foldl after t

/-- The names that are in the store: those that the file had, and then those that were called. -/
def expected (t : Tracked) : List String :=
  let loaded := FileEntries.acceptedNames t.file t.store.path
  loaded ++ (t.called.filter (· ∉ loaded)).eraseDups

/-- The two parts of the ledger are in step, and have what the operations put there. -/
structure Sound (t : Tracked) : Prop where
  ledger : t.ledger = .ofEntries t.store.entries
  names : t.store.names = t.expected

variable {t : Tracked}

theorem sound_load (d : Disk) (s : Store) : (load d s).Sound where
  ledger := Ledger.load_eq d s
  names := by
    have hagrees := loadAgrees_read d s
    unfold expected load FileEntries.acceptedNames
    rw [path_load]
    cases h : FileEntries.read d s.path with
    | error e =>
      rw [h] at hagrees
      simp [names, hagrees.1]
    | ok file? =>
      rw [h] at hagrees
      cases file? with
      | none => simp [names, hagrees.1]
      | some file => simp [hagrees.2.1]

theorem Sound.apply (h : t.Sound) (name : String) (samples : List Sample)
    (paramNames : List String) : (t.apply name samples paramNames).Sound where
  ledger := by
    unfold Tracked.apply
    rw [h.ledger]
    exact Ledger.apply_ofEntries t.store name samples paramNames
  names := by
    have hnames := h.names
    unfold expected at hnames
    rw [← Entries.foldl_addNew] at hnames
    unfold Tracked.apply expected
    dsimp only
    rw [names_apply, hnames, ← Entries.foldl_addNew, List.foldl_append]
    rfl

theorem Sound.after (h : t.Sound) (op : Operation) : (t.after op).Sound := by
  cases op with
  | record w fuel name args paramNames =>
    unfold Tracked.after
    dsimp only
    split
    next samples _ => exact h.apply name samples paramNames
    next => exact h
  | apply name samples paramNames => exact h.apply name samples paramNames
  | load d => exact sound_load d t.store
  | save d => exact h

theorem Sound.run (h : t.Sound) (ops : List Operation) : (t.run ops).Sound := by
  induction ops generalizing t with
  | nil => exact h
  | cons op rest ih => exact ih (h.after op)

theorem path_after (op : Operation) : (t.after op).store.path = t.store.path := by
  cases op with
  | record w fuel name args paramNames =>
    unfold after
    dsimp only
    split <;> rfl
  | apply name samples paramNames => rfl
  | load d => exact path_load
  | save d => rfl

theorem path_run (ops : List Operation) : (t.run ops).store.path = t.store.path := by
  induction ops generalizing t with
  | nil => rfl
  | cons op rest ih => exact ih.trans (path_after op)

end Tracked

theorem written_eq_size {s : Store} {d d' : Disk} {n : Nat}
    (h : s.save d = (.ok (.written n), d')) : n = s.size := by
  have hs : s.entries ≠ [] := by
    intro he
    rw [save, isEmpty, he] at h
    cases h
  obtain ⟨d₁, hmade, hwrite⟩ := save_eq_written h
  rw [save_of_makeParent hs hmade hwrite] at h
  cases h
  rfl

/-- Whatever is done with a store, its names are in step with its records: they are the names that
the last file had and then those of the calls since, each once and in order, and a save writes one
record for each of them in this order. -/
theorem run_ledger (d₀ : Disk) (path : Path) (maxSamples maxDepth : Nat) (ops : List Operation) :
    let t := (Tracked.load d₀ (fresh path maxSamples maxDepth)).run ops
    let loaded := FileEntries.acceptedNames t.file path
    t.ledger.order = t.store.names ∧ t.ledger.records = t.store.snapshot ∧
    t.ledger.order.Nodup ∧ t.ledger.order.Perm (Entries.keys t.ledger.records) ∧
    t.ledger.order = loaded ++ (t.called.filter (· ∉ loaded)).eraseDups ∧
    (∀ (text : String) (assignments : List (String × Json)), t.file.readText path = .ok text →
      (Json.object assignments).IsText text →
      (Json.object assignments).nesting ≤ Json.nestingLimit →
      loaded = (Entries.keys assignments).eraseDups.filter fun name =>
        (FileEntries.lastRecord? assignments name).isSome) ∧
    ∀ (d d' : Disk) (n : Nat), t.store.save d = (.ok (.written n), d') →
      n = t.ledger.order.length ∧
      d'.read path = .ok (.text (Json.object t.ledger.document).pretty) ∧
      Entries.keys t.ledger.document = t.ledger.order ∧
      ∀ e ∈ t.ledger.document, ∃ r, (e.1, r) ∈ t.ledger.records ∧ e.2 = r.toJson := by
  intro t loaded
  have hsound : t.Sound := (Tracked.sound_load d₀ (fresh path maxSamples maxDepth)).run ops
  have hpath : t.store.path = path := (Tracked.path_run ops).trans path_load
  have hperm := Entries.perm_sorted t.store.distinct
  have hnames := hsound.names
  have hdocument := Ledger.document_ofEntries t.store.distinct
  unfold Tracked.expected at hnames
  rw [hpath] at hnames
  rw [hsound.ledger]
  refine ⟨rfl, rfl, t.store.distinct, (hperm.map Prod.fst).symm, hnames,
    fun text assignments => FileEntries.acceptedNames_of_text, ?_⟩
  intro d d' n hsave
  have hread := (read_save hsave).2
  rw [hpath] at hread
  rw [hdocument]
  refine ⟨?_, hread, Entries.keys_map_value _ _, ?_⟩
  · rw [written_eq_size hsave]
    exact (List.length_map _).symm
  · intro e he
    obtain ⟨f, hf, rfl⟩ := List.mem_map.mp he
    exact ⟨f.2, hperm.mem_iff.mpr hf, rfl⟩

/-- A call of `b`, one of `a`, and another of `b`, and then a save. -/
theorem run_ledger_two_names :
    let s := fresh { text := "c.json" } 1 10
    let ops : List Operation := [.apply "b" [] [], .apply "a" [] [], .apply "b" [] []]
    let t := (Tracked.load (Disk.empty []) s).run ops
    t.ledger.order = ["b", "a"] ∧ Entries.keys t.ledger.records = ["a", "b"] ∧
      ∃ d', t.store.save (Disk.empty []) = (.ok (.written 2), d') ∧
        Entries.keys t.ledger.document = ["b", "a"] := by
  intro s ops t
  have hpath : t.store.path = { text := "c.json" } := (Tracked.path_run ops).trans path_load
  have hsize : t.store.size = 2 := by decide +kernel
  have hempty : t.store.isEmpty = false := by decide +kernel
  have hmade : makeParent { text := "c.json" } (Disk.empty []) = (none, Disk.empty []) := rfl
  have hwrite : ∀ text, (Disk.empty []).write { text := "c.json" } (.text text) =
      .ok ((Disk.empty []).put ["c.json".toList] (.file (.text text))) := fun _ => rfl
  have hsave : t.store.save (Disk.empty []) = (.ok (.written 2), (Disk.empty []).put
      ["c.json".toList] (.file (.text t.store.toJson.pretty))) := by
    rw [save, hempty, hpath, hmade, hsize]
    simp only [Bool.false_eq_true, if_false, hwrite]
  obtain ⟨-, -, -, -, horder, -, hwritten⟩ := run_ledger (Disk.empty []) s.path 1 10 ops
  have horder : t.ledger.order = ["b", "a"] := horder.trans (by decide +kernel)
  obtain ⟨-, -, hkeys, -⟩ := hwritten _ _ 2 hsave
  exact ⟨horder, by decide +kernel, _, hsave, hkeys.trans horder⟩

end Store

end CallSampler
