import CallSampler.Disk
import CallSampler.Record
import CallSampler.Json.Printer
import CallSampler.Json.Reader

/-!
# Sample stores

A store maps qualified function names to records, in the order in which the names were first seen,
which is also their order in its file. It is loaded when it is made, changed by every recorded
call, and written when its context shuts down. Neither loading nor saving ever fails the host: what
goes wrong becomes a notice.
-/

namespace CallSampler

/-- Why a store's file could not be read or written. -/
inductive StoreError where
  | unreadable (path : Path) (cause : DiskError)
  | malformed (path : Path)
  | notAnObject (path : Path)
  | noDirectory (directory : Path) (cause : DiskError)
  | unwritable (path : Path) (cause : DiskError)
deriving DecidableEq, Repr

namespace StoreError

/-- What went wrong, without its cause. -/
def message : StoreError → String
  | .unreadable path _ => "Failed to read " ++ path.text
  | .malformed path => "Invalid cache JSON in " ++ path.text
  | .notAnObject path =>
    "Invalid cache JSON in " ++ path.text ++ ": expected an object at the top level"
  | .noDirectory directory _ => "Failed to create directory " ++ directory.text
  | .unwritable path _ => "Failed to write " ++ path.text

/-- The cause, where there is one to tell. The cause of a malformed file is the reader's own
wording. -/
def cause? : StoreError → Option String
  | .unreadable _ cause => some cause.message
  | .malformed _ => some "not a JSON document"
  | .notAnObject _ => none
  | .noDirectory _ cause => some cause.message
  | .unwritable _ cause => some cause.message

end StoreError

structure FileEntries where
  /-- The entries that are records, in order. -/
  accepted : List (String × Record)
  /-- The names of all other entries, in order. -/
  dropped : List String

/-- The entries of a document of records. Each entry is judged on its own. -/
def FileEntries.ofEntries (entries : List (String × Json)) : FileEntries :=
  { accepted := entries.filterMap fun e => (Record.ofJson? e.2).map fun r => (e.1, r)
    dropped := (entries.filter fun e => (Record.ofJson? e.2).isNone).map Prod.fst }

/-- The entries of the file at a path, or nothing if there is no file. -/
def FileEntries.read (d : Disk) (path : Path) : Except StoreError (Option FileEntries) :=
  if !d.pathExists path then .ok none
  else match d.readText path with
    | .error cause => .error (.unreadable path cause)
    | .ok text =>
      match Json.ofText? Json.nestingLimit text with
      | none => .error (.malformed path)
      | some (.object entries) => .ok (some (.ofEntries entries))
      | some _ => .error (.notAnObject path)

/-- One call as a store records it: which function was called, the samples of its arguments, each at
an index that fits a machine word, and the parameter names that it was called under. -/
structure Recording where
  name : String
  samples : List Sample
  paramNames : List String
  index_lt : ∀ s ∈ samples, s.1 < wordLimit

/-- A store of samples. -/
@[ext]
structure Store where
  path : Path
  /-- How many samples a slot keeps. -/
  capacity : Nat
  capacity_pos : 0 < capacity
  /-- How deep arguments are captured. -/
  maxDepth : Nat
  /-- The records, in the order in which their names were first seen. -/
  entries : List (String × Record)
  /-- No name is recorded twice. -/
  distinct : (Entries.keys entries).Nodup

inductive SaveOutcome where
  /-- There was nothing to save, and the file was left alone. -/
  | skippedEmpty
  | written (functions : Nat)
deriving DecidableEq, Repr

namespace Store

/-- A store without records. It keeps at least one sample of each parameter. -/
def fresh (path : Path) (maxSamples maxDepth : Nat) : Store :=
  { path
    capacity := max 1 maxSamples
    capacity_pos := by omega
    maxDepth
    entries := []
    distinct := .nil }

instance : Inhabited Store := ⟨fresh { text := "" } 1 0⟩

def cleared (s : Store) : Store := { s with entries := [], distinct := .nil }

def get? (s : Store) (name : String) : Option Record := Entries.get? name s.entries

/-- The names of all recorded functions, in the order in which they were first seen. -/
def names (s : Store) : List String := Entries.keys s.entries

def size (s : Store) : Nat := s.entries.length

def isEmpty (s : Store) : Bool := s.entries.isEmpty

/-- The records in ascending order of their names. -/
def snapshot (s : Store) : List (String × Record) := Entries.sorted s.entries

/-- Change the record of a function, which is a new one if there was none. -/
def change (name : String) (paramNames : List String) (f : Record → Record) (s : Store) : Store :=
  { s with
    entries := Entries.set name (f ((s.get? name).getD (.fresh paramNames))) s.entries
    distinct := Entries.nodup_keys_put s.distinct }

def apply (name : String) (samples : List Sample) (paramNames : List String) (s : Store) : Store :=
  s.change name paramNames (Record.count s.capacity samples paramNames)

/-- What is done of a call that then turns out to be one too many for its count. -/
def rename (name : String) (paramNames : List String) (s : Store) : Store :=
  s.change name paramNames (Record.rename paramNames)

/-- Whether the count of a function is the largest that there is. -/
def isFull (name : String) (s : Store) : Bool := (s.get? name).any Record.isFull

def record (s : Store) (r : Recording) : Store := s.apply r.name r.samples r.paramNames

/-- Record calls in order. -/
def recordAll (s : Store) (rs : List Recording) : Store := rs.foldl record s

/-- Take over the entries of a file, each slot trimmed. -/
def take (entries : List (String × Record)) (s : Store) : Store :=
  let trimmed := entries.map fun e => (e.1, e.2.trim s.capacity)
  { s with
    entries := Entries.ofAssignments trimmed
    distinct := Entries.nodup_keys_ofAssignments trimmed }

/-- The state that the file holds: the store then, the names of dropped entries, and what went
wrong. A missing file and one that cannot be read both leave the store empty. -/
def load (d : Disk) (s : Store) : Store × List String × Option StoreError :=
  match FileEntries.read d s.path with
  | .ok none => (s.cleared, [], none)
  | .ok (some file) => (s.take file.accepted, file.dropped, none)
  | .error e => (s.cleared, [], some e)

def toJson (s : Store) : Json := .object (s.entries.map fun e => (e.1, e.2.toJson))

/-- Create the directory that a path is in, with all its missing parents: what is wrong, if
anything, and the disk then. -/
def makeParent (path : Path) (d : Disk) : Option StoreError × Disk :=
  match path.parent?.filter (!·.isEmpty) with
  | none => (none, d)
  | some parent =>
    let (failure?, d) := d.createDirectories parent
    (failure?.map (.noDirectory parent), d)

/-- Write the records to the file, creating its directory. An empty store leaves the file alone, so
that a run that recorded nothing cannot wipe what an earlier one gathered. The disk is returned
also when something fails, since a directory may have been created. -/
def save (d : Disk) (s : Store) : Except StoreError SaveOutcome × Disk :=
  if s.isEmpty then (.ok .skippedEmpty, d)
  else
    match makeParent s.path d with
    | (some e, d) => (.error e, d)
    | (none, d) =>
      match d.write s.path (.text s.toJson.pretty) with
      | .ok d => (.ok (.written s.size), d)
      | .error cause => (.error (.unwritable s.path cause), d)

end Store

end CallSampler
