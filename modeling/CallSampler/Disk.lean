import CallSampler.Entries
import CallSampler.Path
import CallSampler.Text.Utf8

/-!
# The file system

A tree of files and directories without links, as the map from the names that lead from the root
to what is there. Paths are looked up one name after the other from the root or the working
directory; what fails first on the way is the error.
-/

namespace CallSampler

inductive DiskError where
  | notFound
  | alreadyExists
  | notADirectory
  | isADirectory
  | nameTooLong
  | malformedText
  | nulInName
deriving DecidableEq, Repr

def DiskError.message : DiskError → String
  | .notFound => "No such file or directory (os error 2)"
  | .alreadyExists => "File exists (os error 17)"
  | .notADirectory => "Not a directory (os error 20)"
  | .isADirectory => "Is a directory (os error 21)"
  | .nameTooLong => "File name too long (os error 36)"
  | .malformedText => "stream did not contain valid UTF-8"
  | .nulInName => "file name contained an unexpected NUL byte"

/-- What a file holds: text, or bytes that spell none. -/
inductive Content where
  | text (value : String)
  | bytes (value : List UInt8)
deriving DecidableEq, Repr

def Content.ofBytes (bytes : List UInt8) : Content :=
  match Utf8.text? bytes with
  | some s => .text s
  | none => .bytes bytes

/-- The text of a content, if it is one. -/
def Content.text? : Content → Option String
  | .text s => some s
  | .bytes _ => none

/-- The text of a content, malformed bytes replaced. -/
def Content.lossy : Content → String
  | .text s => s
  | .bytes b => Utf8.lossy b

/-- What stands at a place. -/
inductive Node where
  | file (content : Content)
  | directory
deriving DecidableEq, Repr

/-- The names that lead from the root to a place. -/
abbrev Place := List (List Char)

/-- A file system with a working directory. The root is always a directory. -/
structure Disk where
  nodes : List (Place × Node)
  workingDirectory : Place

namespace Disk

def node? (d : Disk) (place : Place) : Option Node :=
  if place = [] then some .directory else Entries.find? (· == place) d.nodes

def put (d : Disk) (place : Place) (node : Node) : Disk :=
  { d with nodes := Entries.put (· == ·) place node d.nodes }

def isDirectoryAt (d : Disk) (place : Place) : Bool := d.node? place == some .directory

def cwd (d : Disk) : Path := Path.ofNames d.workingDirectory

/-- The errors that a path has whatever the tree holds: the empty path leads nowhere, no name holds
a NUL, and the whole path is shorter than 4096 bytes. -/
def check (path : Path) : Except DiskError Unit :=
  if path.text.toList.contains '\x00' then .error .nulInName
  else if path.text.isEmpty then .error .notFound
  else if 4096 ≤ Utf8.size path.text then .error .nameTooLong
  else .ok ()

/-- Follow texts between slashes from a place. Each is looked up in the directory reached so
far. -/
def walk (d : Disk) : Place → List (List Char) → Except DiskError Place
  | place, [] => .ok place
  | place, s :: rest =>
    if !d.isDirectoryAt place then .error .notADirectory
    else if Path.idle s then walk d place rest
    else if s = ['.', '.'] then walk d place.dropLast rest
    else if 255 < Utf8.size (String.ofList s) then .error .nameTooLong
    else match d.node? (place ++ [s]) with
      | none => .error .notFound
      | some _ => walk d (place ++ [s]) rest

/-- Where a path starts, and the texts between slashes to follow from there. -/
def start (d : Disk) (path : Path) : Place × List (List Char) :=
  match path.text.toList with
  | '/' :: rest => ([], Path.split rest)
  | cs => (d.workingDirectory, Path.split cs)

/-- The place that a path leads to, which exists. -/
def locate (d : Disk) (path : Path) : Except DiskError Place := do
  check path
  let (place, texts) := d.start path
  d.walk place texts

/-- Whether a path leads anywhere. Every error counts as no. -/
def pathExists (d : Disk) (path : Path) : Bool := (d.locate path).toBool

def isDirectory (d : Disk) (path : Path) : Bool :=
  match d.locate path with
  | .ok place => d.isDirectoryAt place
  | .error _ => false

/-- The content of the file that a path leads to. -/
def read (d : Disk) (path : Path) : Except DiskError Content := do
  let place ← d.locate path
  match d.node? place with
  | some (.file content) => .ok content
  | some .directory => .error .isADirectory
  | none => .error .notFound

/-- The text of the file that a path leads to. -/
def readText (d : Disk) (path : Path) : Except DiskError String := do
  match (← d.read path).text? with
  | some s => .ok s
  | none => .error .malformedText

/-- The last name of a path to be created or removed, with the directory that it is in, and whether
slashes follow it. A path that ends in dots or is all slashes has no last name. -/
structure Target where
  directory : Place
  name? : Option (List Char)
  slashed : Bool

/-- The target of a path. All names but the last must lead to a directory. -/
def target (d : Disk) (path : Path) : Except DiskError Target := do
  check path
  let (place, texts) := d.start path
  let texts' := (texts.reverse.dropWhile (· = [])).reverse
  let slashed := texts'.length ≠ texts.length
  let place ← d.walk place texts'.dropLast
  if !d.isDirectoryAt place then .error .notADirectory
  else
    let name? := texts'.getLast?.filter fun s => s ≠ ['.'] ∧ s ≠ ['.', '.']
    .ok { directory := place, name?, slashed }

/-- Write a file, which is created if its directory exists. -/
def write (d : Disk) (path : Path) (content : Content) : Except DiskError Disk := do
  let t ← d.target path
  match t.name? with
  | none => .error .isADirectory
  | some s =>
    if t.slashed then .error .isADirectory
    else if 255 < Utf8.size (String.ofList s) then .error .nameTooLong
    else if d.isDirectoryAt (t.directory ++ [s]) then .error .isADirectory
    else .ok (d.put (t.directory ++ [s]) (.file content))

def createDirectory (d : Disk) (path : Path) : Except DiskError Disk := do
  let t ← d.target path
  match t.name? with
  | none => .error .alreadyExists
  | some s =>
    if 255 < Utf8.size (String.ofList s) then .error .nameTooLong
    else if (d.node? (t.directory ++ [s])).isSome then .error .alreadyExists
    else .ok (d.put (t.directory ++ [s]) .directory)

/-- Create one directory, which may be there already: what is wrong, if anything, and the disk
then. -/
def ensureDirectory (d : Disk) (path : Path) : Option DiskError × Disk :=
  match d.createDirectory path with
  | .ok d => (none, d)
  | .error e => if d.isDirectory path then (none, d) else (some e, d)

/-- Create a directory and, where it is missing, its parent, at most as many levels up as there is
fuel. What was created before an error stays. -/
def createAll : Nat → Disk → Path → Option DiskError × Disk
  | 0, d, path => d.ensureDirectory path
  | fuel + 1, d, path =>
    if path.isEmpty then (none, d)
    else match d.createDirectory path, path.parent? with
      | .error .notFound, some parent =>
        match createAll fuel d parent with
        | (none, d) => d.ensureDirectory path
        | failed => failed
      | _, _ => d.ensureDirectory path

def createDirectories (d : Disk) (path : Path) : Option DiskError × Disk :=
  createAll path.text.length d path

def remove (d : Disk) (path : Path) : Except DiskError Disk := do
  let t ← d.target path
  match t.name? with
  | none => .error .isADirectory
  | some s =>
    match d.node? (t.directory ++ [s]) with
    | none => .error .notFound
    | some .directory => .error .isADirectory
    | some (.file _) =>
      if t.slashed then .error .notADirectory
      else .ok { d with nodes := d.nodes.filter fun e => e.1 != t.directory ++ [s] }

/-- A disk on which there is nothing but a working directory and what leads to it. -/
def empty (workingDirectory : Place) : Disk :=
  { nodes := (List.range workingDirectory.length).map fun i =>
      (workingDirectory.take (i + 1), .directory)
    workingDirectory }

/-- Place a file with all its missing parents. What fails leaves the disk as it is. -/
def plant (d : Disk) (path : Path) (content : Content) : Disk :=
  let made := match path.parent? with
    | some parent => (d.createDirectories parent).2
    | none => d
  match made.write path content with
  | .ok d => d
  | .error _ => made

end Disk

end CallSampler
