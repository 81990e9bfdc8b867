/-!
# Paths

A path is a text with components between slashes. Empty components count for nothing, nor does a
dot, except for one that starts a relative path. Normalization is lexical: it resolves dots and
double dots on a stack of names and never asks whether anything exists.
-/

namespace CallSampler

/-- A path as it was written. -/
structure Path where
  text : String
deriving DecidableEq, Repr, Inhabited

namespace Path

inductive Component where
  /-- The slash that an absolute path starts with. -/
  | root
  /-- The dot that a relative path may start with. -/
  | here
  /-- A double dot. -/
  | up
  | name (text : List Char)
deriving DecidableEq, Repr

/-- The texts between slashes, empty ones included. -/
def split : List Char → List (List Char)
  | [] => [[]]
  | c :: rest =>
    if c = '/' then [] :: split rest
    else match split rest with
      | [] => [[c]]
      | s :: ss => (c :: s) :: ss

def join : List (List Char) → List Char
  | [] => []
  | [s] => s
  | s :: t :: rest => s ++ '/' :: join (t :: rest)

/-- A component text that counts for nothing inside a path. -/
def idle (s : List Char) : Bool := s = [] || s = ['.']

/-- The component that a text between slashes is, unless it is idle. -/
def component? (s : List Char) : Option Component :=
  if idle s then none
  else if s = ['.', '.'] then some .up
  else some (.name s)

/-- The start of a path, if it has one, and the texts between slashes behind it. -/
def parts (path : Path) : Option Component × List (List Char) :=
  match path.text.toList with
  | '/' :: rest => (some .root, split rest)
  | cs =>
    match split cs with
    | ['.'] :: rest => (some .here, rest)
    | texts => (none, texts)

def components (path : Path) : List Component :=
  path.parts.1.toList ++ path.parts.2.filterMap component?

def isAbsolute (path : Path) : Bool :=
  match path.text.toList with
  | '/' :: _ => true
  | _ => false

/-- Whether a path has no text at all. -/
def isEmpty (path : Path) : Bool := path.text.isEmpty

/-- The path that `q` is when read from `p`: `q` itself if it is absolute, else the two with a
slash between them, unless `p` is empty or ends with one. -/
def append (p q : Path) : Path :=
  if q.isAbsolute then q
  else match p.text.toList.getLast? with
    | none => q
    | some '/' => { text := p.text ++ q.text }
    | some _ => { text := p.text ++ "/" ++ q.text }

/-- What one component does to the stack of names that lead from the root, the innermost first. A
double dot at the root stays there. -/
def Component.apply (stack : List (List Char)) : Component → List (List Char)
  | .root => []
  | .here => stack
  | .up => stack.drop 1
  | .name s => s :: stack

/-- The absolute path that a list of names, outermost first, leads to. -/
def ofNames (names : List (List Char)) : Path := { text := String.ofList ('/' :: join names) }

/-- The names that lead from the root to an absolute path. -/
def names (path : Path) : List (List Char) :=
  (path.components.foldl Component.apply []).reverse

/-- The absolute path without dots that a path is when read from a working directory. -/
def normalize (cwd path : Path) : Path :=
  ofNames (if path.isAbsolute then path.names else (cwd.append path).names)

def dropIdleEnd (texts : List (List Char)) : List (List Char) :=
  (texts.reverse.dropWhile idle).reverse

/-- The text of a start and the texts behind it. -/
def ofParts (start : Option Component) (texts : List (List Char)) : Path :=
  match start, texts with
  | some .root, texts => { text := String.ofList ('/' :: join texts) }
  | some _, [] => { text := "." }
  | some _, texts => { text := String.ofList ('.' :: '/' :: join texts) }
  | none, texts => { text := String.ofList (join texts) }

/-- The path without its last component, as it was written up to there. The root and the empty
path have none. -/
def parent? (path : Path) : Option Path :=
  match path.parts with
  | (start, texts) =>
    match (dropIdleEnd texts).dropLast, dropIdleEnd texts with
    | _, [] => if start = some .here then some { text := "" } else none
    | init, _ :: _ => some (ofParts start (dropIdleEnd init))

end Path

end CallSampler
