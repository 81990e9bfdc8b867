import CallSampler.Notice
import CallSampler.Proofs.Json.Grammar
import CallSampler.Proofs.Record.Format
import CallSampler.Proofs.Store.Loading
import Mathlib.Data.List.Basic

/-!
# What is accepted of a file

The text of an object of records gives its keys any number of times, good and bad values mixed. What
is accepted of it are the keys whose last value is a record, in the order in which they first occur,
and each other key is reported once (`ofEntries_settle`); so the text without the keys that were
reported is accepted in the same way and nothing of it is reported (`ofEntries_without_dropped`).
Loading and reading agree on every file: whatever is read is loaded, trimmed (`load_agrees`).
-/

namespace CallSampler

namespace Json

/-- A text of a document, whose keys may repeat. -/
def IsText (j : Json) (text : String) : Prop := tokens? text.toList = some j.tokens

/-- What a reader makes of a text. -/
theorem ofText?_eq_some_iff {limit : Nat} {text : String} {j : Json} :
    ofText? limit text = some j ↔
      ∃ given : Json, given.IsText text ∧ given.nesting ≤ limit ∧ given.settled = j := by
  constructor
  · intro h
    obtain ⟨ts, hts, h⟩ := Option.bind_eq_some_iff.mp h
    obtain ⟨given, rfl, hl, hj⟩ := ofTokens?_eq_some_iff.mp h
    exact ⟨given, hts, hl, hj⟩
  · rintro ⟨given, htext, hl, rfl⟩
    rw [ofText?, htext]
    exact ofTokens?_tokens_eq hl

/-- Only an object settles to an object. -/
theorem settled_eq_object_iff {given : Json} {entries : List (String × Json)} :
    given.settled = .object entries ↔
      ∃ assignments, given = .object assignments ∧ settle assignments = entries := by
  constructor
  · intro h
    cases given with
    | object assignments =>
      rw [settled_object] at h
      injection h with h
      exact ⟨assignments, rfl, h⟩
    | array items =>
      rw [settled_array] at h
      cases h
    | _ => cases h
  · rintro ⟨assignments, rfl, rfl⟩
    exact settled_object assignments

end Json

variable {d : Disk} {path : Path} {text : String} {assignments : List (String × Json)}

theorem Disk.pathExists_of_readText (h : d.readText path = .ok text) :
    d.pathExists path = true := by
  unfold Disk.pathExists
  cases hl : d.locate path with
  | ok place => rfl
  | error e =>
    have herror : d.readText path = .error e := by
      rw [Disk.readText, Disk.read, hl]
      rfl
    rw [herror] at h
    cases h

namespace FileEntries

/-! ## The entries of a text -/

/-- The record that the last value of a key is, if it is one. -/
def lastRecord? (assignments : List (String × Json)) (name : String) : Option Record :=
  (Entries.find? (· == name) assignments.reverse).bind fun j => Record.ofJson? j.settled

theorem bind_find?_settle (name : String) :
    (Entries.find? (· == name) (Json.settle assignments)).bind Record.ofJson? =
      lastRecord? assignments name := by
  have hfind := Entries.find?_map_value Json.settled name assignments.reverse
  rw [Json.settle, Entries.find?_ofAssignments, ← List.map_reverse, hfind, lastRecord?,
    Option.bind_map]
  rfl

theorem keys_settle (assignments : List (String × Json)) :
    Entries.keys (Json.settle assignments) = (Entries.keys assignments).eraseDups := by
  rw [Json.settle, Entries.keys_ofAssignments, Entries.keys_map_value]

theorem nodup_keys_settle (assignments : List (String × Json)) :
    (Entries.keys (Json.settle assignments)).Nodup :=
  Entries.nodup_keys_ofAssignments _

/-- The keys whose last value is a record are accepted in the order in which they first occur, and
each other key is reported once, in the same order. -/
theorem ofEntries_settle (assignments : List (String × Json)) :
    ofEntries (Json.settle assignments) =
      { accepted := (Entries.keys assignments).eraseDups.filterMap fun name =>
          (lastRecord? assignments name).map fun r => (name, r)
        dropped := (Entries.keys assignments).eraseDups.filter fun name =>
          (lastRecord? assignments name).isNone } := by
  have hn := nodup_keys_settle assignments
  have hrecord : ∀ e ∈ Json.settle assignments,
      lastRecord? assignments e.1 = Record.ofJson? e.2 := by
    intro e he
    rw [← bind_find?_settle, Entries.find?_of_mem hn he]
    rfl
  rw [← keys_settle, Entries.keys, List.filterMap_map, List.filter_map]
  unfold ofEntries
  congr 1
  · refine List.filterMap_congr fun e he => ?_
    simp only [Function.comp_apply, hrecord e he]
  · refine congrArg (List.map Prod.fst) (List.filter_congr fun e he => ?_)
    simp only [Function.comp_apply, hrecord e he]

/-- Without the entries that were dropped the same is accepted and nothing is dropped. -/
theorem ofEntries_without_dropped (assignments : List (String × Json)) :
    ofEntries (Json.settle (assignments.filter fun a =>
        a.1 ∉ (ofEntries (Json.settle assignments)).dropped)) =
      { accepted := (ofEntries (Json.settle assignments)).accepted, dropped := [] } := by
  have hfilter : Json.settle (assignments.filter fun a =>
      a.1 ∉ (ofEntries (Json.settle assignments)).dropped) =
      (Json.settle assignments).filter fun e => (Record.ofJson? e.2).isSome := by
    have hmap := Entries.ofAssignments_filter (assignments.map fun e => (e.1, e.2.settled))
      (· ∉ (ofEntries (Json.settle assignments)).dropped)
    rw [List.filter_map] at hmap
    refine Eq.trans hmap (List.filter_congr fun e he => ?_)
    have hn := nodup_keys_settle assignments
    -- a key stands for one entry, so it is dropped exactly if that entry is no record
    have hdropped : e.1 ∈ (ofEntries (Json.settle assignments)).dropped ↔
        (Record.ofJson? e.2).isNone := by
      constructor
      · intro hm
        obtain ⟨f, hf, hkey⟩ := List.mem_map.mp hm
        obtain ⟨hf, hnone⟩ := List.mem_filter.mp hf
        have hvalue : e.2 = f.2 := by
          have hfound := Entries.find?_of_mem hn hf
          rw [hkey, Entries.find?_of_mem hn he] at hfound
          exact Option.some.inj hfound
        rwa [hvalue]
      · intro hnone
        exact List.mem_map.mpr ⟨e, List.mem_filter.mpr ⟨he, hnone⟩, rfl⟩
    cases hr : Record.ofJson? e.2 <;> simp [hdropped, hr]
  rw [hfilter]
  unfold ofEntries
  congr 1
  · rw [List.filterMap_filter]
    refine List.filterMap_congr fun e _ => ?_
    cases Record.ofJson? e.2 <;> rfl
  · rw [List.filter_filter]
    simp

/-! ## The entries of a file -/

theorem read_of_text (h : d.readText path = .ok text) (ht : (Json.object assignments).IsText text)
    (hl : (Json.object assignments).nesting ≤ Json.nestingLimit) :
    read d path = .ok (some (ofEntries (Json.settle assignments))) := by
  have hread : Json.ofText? Json.nestingLimit text = some (.object (Json.settle assignments)) :=
    Json.ofText?_eq_some_iff.mpr ⟨_, ht, hl, Json.settled_object assignments⟩
  rw [read, Disk.pathExists_of_readText h, h]
  simp only [Bool.not_true, Bool.false_eq_true, if_false, hread]

/-- A file is read exactly if it is the text of an object within the limit. -/
theorem exists_text_of_read {file : FileEntries} (h : read d path = .ok (some file)) :
    ∃ text assignments, d.readText path = .ok text ∧ (Json.object assignments).IsText text ∧
      (Json.object assignments).nesting ≤ Json.nestingLimit := by
  unfold read at h
  split at h
  next => cases h
  next =>
    split at h
    next => cases h
    next text htext =>
      split at h
      next => cases h
      next entries hj =>
        obtain ⟨given, ht, hl, hobject⟩ := Json.ofText?_eq_some_iff.mp hj
        obtain ⟨assignments, rfl, -⟩ := Json.settled_eq_object_iff.mp hobject
        exact ⟨text, assignments, htext, ht, hl⟩
      next => cases h

theorem read_eq_none_iff : read d path = .ok none ↔ d.pathExists path = false := by
  constructor
  · intro h
    unfold read at h
    split at h
    next hmissing => simpa using hmissing
    next =>
      split at h
      next => cases h
      next => split at h <;> cases h
  · intro h
    rw [read, h]
    rfl

end FileEntries

namespace Store

variable {s : Store}

/-- What is told of a load. -/
def loadNotices (d : Disk) (s : Store) : List Notice :=
  Notice.ofLoad (s.load d).2.1 (s.load d).2.2

/-- What loading leaves and tells, given what reading makes of the file. -/
def LoadAgrees (d : Disk) (s : Store) : Except StoreError (Option FileEntries) → Prop
  | .ok none => (s.load d).1.entries = [] ∧ s.loadNotices d = []
  | .error e => (s.load d).1.entries = [] ∧ s.loadNotices d = [.loadFailed e]
  | .ok (some file) =>
    (s.load d).1.entries = file.accepted.map (fun e => (e.1, e.2.trim s.capacity)) ∧
      (s.load d).1.names = Entries.keys file.accepted ∧
      (s.load d).1.snapshot =
        (Entries.sorted file.accepted).map (fun e => (e.1, e.2.trim s.capacity)) ∧
      s.loadNotices d = file.dropped.map .droppedEntry

theorem loadAgrees_read (d : Disk) (s : Store) : s.LoadAgrees d (FileEntries.read d s.path) := by
  cases h : FileEntries.read d s.path with
  | error e =>
    have hload : s.load d = (s.cleared, [], some e) := by rw [load, h]
    rw [LoadAgrees, loadNotices, hload]
    exact ⟨rfl, rfl⟩
  | ok file? =>
    cases file? with
    | none =>
      have hload : s.load d = (s.cleared, [], none) := by rw [load, h]
      rw [LoadAgrees, loadNotices, hload]
      exact ⟨rfl, rfl⟩
    | some file =>
      have hentries := entries_take (s := s) (FileEntries.nodup_of_read h)
      rw [LoadAgrees, loadNotices, load_of_read h]
      refine ⟨hentries, ?_, ?_, ?_⟩
      · rw [names, hentries, Entries.keys_map_value]
      · rw [snapshot, hentries]
        exact Entries.sorted_map_value (Record.trim s.capacity) file.accepted
      · simp [Notice.ofLoad]

/-- The loader accepts the forms of records and no other values, judges each entry by its last value
and on its own, and loads what is read, each slot trimmed. -/
theorem load_agrees (d : Disk) (s : Store) :
    (∀ (j : Json) (r : Record), Record.ofJson? j.settled = some r ↔ r.FormOf j.settled) ∧
    (∀ (l : Number.Literal) (n : Nat), Number.ofLiteral? l = some (.integer n) ↔
      l.negative = false ∧ l.fraction = none ∧ l.exponent = none ∧
        Decimal.ofDigits l.whole = n ∧ n < wordLimit) ∧
    (∀ (text : String) (assignments : List (String × Json)), d.readText s.path = .ok text →
      (Json.object assignments).IsText text →
      (Json.object assignments).nesting ≤ Json.nestingLimit →
      ∃ file, FileEntries.read d s.path = .ok (some file) ∧
        file.accepted = ((Entries.keys assignments).eraseDups.filterMap fun name =>
          (FileEntries.lastRecord? assignments name).map fun r => (name, r)) ∧
        file.dropped = ((Entries.keys assignments).eraseDups.filter fun name =>
          (FileEntries.lastRecord? assignments name).isNone) ∧
        ∀ (d' : Disk) (text' : String), d'.readText s.path = .ok text' →
          (Json.object (assignments.filter fun a => a.1 ∉ file.dropped)).IsText text' →
          FileEntries.read d' s.path = .ok (some { accepted := file.accepted, dropped := [] })) ∧
    (∀ file, FileEntries.read d s.path = .ok (some file) →
      ∃ text assignments, d.readText s.path = .ok text ∧ (Json.object assignments).IsText text ∧
        (Json.object assignments).nesting ≤ Json.nestingLimit) ∧
    (FileEntries.read d s.path = .ok none ↔ d.pathExists s.path = false) ∧
    s.LoadAgrees d (FileEntries.read d s.path) := by
  refine ⟨fun j r => Record.ofJson?_eq_some_iff (Json.distinctKeys_settled j),
    fun l n => Number.ofLiteral?_eq_natural_iff, ?_, fun file => FileEntries.exists_text_of_read,
    FileEntries.read_eq_none_iff, loadAgrees_read d s⟩
  intro text assignments hfile htext hl
  have hsettle := FileEntries.ofEntries_settle assignments
  refine ⟨_, FileEntries.read_of_text hfile htext hl, congrArg FileEntries.accepted hsettle,
    congrArg FileEntries.dropped hsettle, ?_⟩
  intro d' text' hfile' htext'
  have hl' : (Json.object (assignments.filter fun a =>
      a.1 ∉ (FileEntries.ofEntries (Json.settle assignments)).dropped)).nesting ≤
      Json.nestingLimit := by
    rw [Json.nestingLimit, Json.nesting_object_le] at hl ⊢
    exact fun e he => hl e (List.mem_filter.mp he).1
  rw [FileEntries.read_of_text hfile' htext' hl', FileEntries.ofEntries_without_dropped]

/-- The disk with one file of samples. -/
def onlyFile (text : String) : Disk := (Disk.empty []).plant { text := "c.json" } (.text text)

/-- A key that repeats and an entry without a count. -/
def mixedText : String :=
  "\x7b\"f\":1,\"g\":\x7b\"calls\":1\x7d,\"f\":\x7b\"callCount\":2\x7d\x7d"

def goodText : String := "\x7b\"f\":1,\"f\":\x7b\"callCount\":2\x7d\x7d"

theorem load_agrees_mixed :
    let s := fresh { text := "c.json" } 1 10
    (s.load (onlyFile mixedText)).1.names = ["f"] ∧
      s.loadNotices (onlyFile mixedText) = [.droppedEntry "g"] ∧
      ∃ file, FileEntries.read (onlyFile mixedText) s.path = .ok (some file) ∧
        FileEntries.read (onlyFile goodText) s.path =
          .ok (some { accepted := file.accepted, dropped := [] }) := by
  intro s
  obtain ⟨-, -, hcontent, -, -, hload⟩ := load_agrees (onlyFile mixedText) s
  have hfile : ∀ text, (onlyFile text).readText { text := "c.json" } = .ok text := fun _ => rfl
  have htext : (Json.object [("f", .ofNat 1), ("g", .object [("calls", .ofNat 1)]),
      ("f", .object [("callCount", .ofNat 2)])]).IsText mixedText := by rfl
  obtain ⟨file, hread, haccepted, hdropped, hwithout⟩ := hcontent _ _ (hfile _) htext (by decide)
  have hdropped : file.dropped = ["g"] := hdropped.trans (by rfl)
  rw [hread] at hload
  obtain ⟨-, hnames, -, hnotices⟩ := hload
  rw [hdropped] at hwithout hnotices
  rw [hnames, haccepted]
  exact ⟨by rfl, hnotices, file, hread, hwithout _ goodText (hfile _) (by rfl)⟩

def twoSamplesText : String :=
  "\x7b\"f\":\x7b\"callCount\":2,\"paramData\":\x7b\"0\":[1,2]\x7d\x7d\x7d"

/-- Loading cuts a slot down that reading keeps whole, an integer with a minus sign is no count even
if it is zero, and a number that is too great for a double makes the whole file unreadable. -/
theorem load_disagrees :
    let s := fresh { text := "c.json" } 1 10
    (∃ file, FileEntries.read (onlyFile twoSamplesText) s.path = .ok (some file) ∧
        (Entries.get? "f" file.accepted).bind (·.samples? 0) = some [.ofNat 1, .ofNat 2]) ∧
      ((s.load (onlyFile twoSamplesText)).1.get? "f").bind (·.samples? 0) = some [.ofNat 2] ∧
      FileEntries.read (onlyFile "\x7b\"f\":\x7b\"callCount\":-0\x7d\x7d") s.path =
        .ok (some { accepted := [], dropped := ["f"] }) ∧
      FileEntries.read (onlyFile
        "\x7b\"f\":\x7b\"callCount\":1\x7d,\"g\":1e2147483648\x7d") s.path =
        .error (.malformed s.path) := by
  exact ⟨⟨_, rfl, rfl⟩, rfl, rfl, rfl⟩

end Store

end CallSampler
