import CallSampler.Entries

/-!
# TOML documents

A document is a table. How a table came about decides what may still be added to it: an inline table
is complete, a table under a header takes no second header, and one that is only implied by a longer
header or by dotted keys may still be filled in the way it began.
-/

namespace CallSampler

inductive TableOrigin where
  /-- Between braces. -/
  | inline
  /-- Under a header of its own. -/
  | header
  /-- On the way of a longer header. -/
  | implied
  /-- On the way of a dotted key. -/
  | dotted
deriving DecidableEq, Repr

inductive Toml where
  | string (value : String)
  | integer (value : Int)
  | float (value : Float)
  | boolean (value : Bool)
  /-- A date, a time of day or both. -/
  | moment
  | array (items : List Toml)
  /-- The tables under headers in double brackets, the newest first. -/
  | tables (items : List Toml)
  | table (origin : TableOrigin) (entries : List (String × Toml))
deriving Inhabited

namespace Toml

inductive Statement where
  | assign (path : List String) (key : String) (value : Toml)
  | header (path : List String) (key : String)
  | tablesHeader (path : List String) (key : String)

/-- Go into the newest of the tables that a value is, and change it there. -/
def enter (f : Toml → Option Toml) : Toml → Option Toml
  | .tables (newest :: rest) => (f newest).map fun t => .tables (t :: rest)
  | .table .inline _ => none
  | .table origin entries => f (.table origin entries)
  | _ => none

/-- Change the entry of a table under a key, or add one. -/
def atKey (key : String) (f : Option Toml → Option Toml) : Toml → Option Toml
  | .table origin entries =>
    (f (Entries.get? key entries)).map fun v => .table origin (Entries.set key v entries)
  | _ => none

/-- Follow the path of a header from a table and change what is there. Missing tables are
implied. -/
def descend (f : Toml → Option Toml) : List String → Toml → Option Toml
  | [], t => f t
  | key :: rest, t => atKey key (fun
      | none => descend f rest (.table .implied [])
      | some v => enter (descend f rest) v) t

/-- Whether a table may be reached by a dotted key. -/
def dottable : Toml → Bool
  | .table .header _ => false
  | .table .inline _ => false
  | _ => true

/-- Follow a dotted key from a table and change what is there. Missing tables are made for it. -/
def descendDotted (f : Toml → Option Toml) : List String → Toml → Option Toml
  | [], t => f t
  | key :: rest, t => atKey key (fun
      | none => descendDotted f rest (.table .dotted [])
      | some v => if dottable v then enter (descendDotted f rest) v else none) t

/-- Add an entry to a table, which has to be one that dotted keys made exactly if the key is
dotted. -/
def addEntry (dotted : Bool) (key : String) (value : Toml) : Toml → Option Toml
  | .table origin entries =>
    if (origin = .dotted) ≠ dotted ∨ Entries.has key entries then none
    else some (.table origin (entries ++ [(key, value)]))
  | _ => none

/-- Assign a value to a key of a table. -/
def assignKey (path : List String) (key : String) (value : Toml) (t : Toml) : Option Toml :=
  descendDotted (addEntry (!path.isEmpty) key value) path t

def openTable : Option Toml → Option Toml
  | none => some (.table .header [])
  | some (.table .implied entries) => some (.table .header entries)
  | some _ => none

/-- Open one more table of a header in double brackets. -/
def openNextTable : Option Toml → Option Toml
  | none => some (.tables [.table .header []])
  | some (.tables items) => some (.tables (.table .header [] :: items))
  | some _ => none

/-- A document so far, and the path of the header that new assignments go under. -/
structure Draft where
  root : Toml
  current : List String

def Draft.add (d : Draft) : Statement → Option Draft
  | .assign path key value =>
    (descend (assignKey path key value) d.current d.root).map fun root => { d with root }
  | .header path key =>
    (descend (atKey key openTable) path d.root).map fun root =>
      { root, current := path ++ [key] }
  | .tablesHeader path key =>
    (descend (atKey key openNextTable) path d.root).map fun root =>
      { root, current := path ++ [key] }

/-- The document of some statements, unless one of them defines anew what is defined already. -/
def ofStatements? (statements : List Statement) : Option Toml :=
  (statements.foldlM Draft.add { root := .table .header [], current := [] }).map Draft.root

def inlineTable? (entries : List (List String × String × Toml)) : Option Toml := do
  match ← entries.foldlM (fun t (path, key, v) => assignKey path key v t) (.table .header []) with
  | .table _ entries => some (.table .inline entries)
  | _ => none

def field? (name : String) : Toml → Option Toml
  | .table _ entries => Entries.get? name entries
  | _ => none

end Toml

end CallSampler
