import CallSampler.Json.Token

/-!
# Reading JSON documents

The tokens of a text drive a stack machine: a frame for each array or object that is still open,
and a mode that says what may come next. The machine never has more open frames than the reader's
limit, and a text that needs more is refused as a whole. A repeated key keeps its place in the
object, and its later value wins.
-/

namespace CallSampler.Json

/-- How many nested arrays and objects a reader of files accepts. -/
def nestingLimit : Nat := 127

/-- An array or object that is still open: its items so far in reverse, or its entries so far with
the key of the value being read. -/
inductive Frame where
  | array (items : List Json)
  | object (entries : List (String × Json)) (key : String)

inductive Mode where
  /-- A value. -/
  | value
  /-- A value, or the end of the array just opened. -/
  | firstItem
  /-- A key, or the end of the object just opened. -/
  | firstKey
  /-- A key of the innermost object, whose entries so far are given. -/
  | key (entries : List (String × Json))
  /-- The colon after a key. -/
  | colon (entries : List (String × Json)) (key : String)
  /-- A comma, or the end of the innermost array or object. -/
  | separator
  /-- Nothing: the document is complete. -/
  | done (document : Json)

/-- The reader between two tokens. -/
structure Machine where
  /-- The open frames, innermost first. -/
  frames : List Frame
  /-- How many more frames may be opened. -/
  room : Nat
  mode : Mode

def Machine.finish (j : Json) : List Frame → Nat → Machine
  | [], room => { frames := [], room, mode := .done j }
  | .array items :: rest, room =>
    { frames := .array (j :: items) :: rest, room, mode := .separator }
  | .object entries key :: rest, room =>
    { frames := .object (Entries.set key j entries) key :: rest, room, mode := .separator }

def Machine.begin (frames : List Frame) (room : Nat) : Token → Option Machine
  | .null => some (.finish .null frames room)
  | .bool b => some (.finish (.bool b) frames room)
  | .number n => some (.finish (.number n) frames room)
  | .string s => some (.finish (.string s) frames room)
  | .openArray =>
    match room with
    | 0 => none
    | room + 1 => some { frames := .array [] :: frames, room, mode := .firstItem }
  | .openObject =>
    match room with
    | 0 => none
    | room + 1 => some { frames, room, mode := .firstKey }
  | _ => none

/-- The first item of the array just opened, or its end. -/
def Machine.stepFirstItem (m : Machine) : Token → Option Machine
  | .closeArray =>
    match m.frames with
    | .array _ :: rest => some (.finish (.array []) rest (m.room + 1))
    | _ => none
  | t => Machine.begin m.frames m.room t

/-- The first key of the object just opened, or its end. -/
def Machine.stepFirstKey (m : Machine) : Token → Option Machine
  | .closeObject => some (.finish (.object []) m.frames (m.room + 1))
  | .string s => some { m with mode := .colon [] s }
  | _ => none

/-- A key of an object whose entries so far are given. -/
def Machine.stepKey (m : Machine) (entries : List (String × Json)) : Token → Option Machine
  | .string s => some { m with mode := .colon entries s }
  | _ => none

def Machine.stepColon (m : Machine) (entries : List (String × Json)) (key : String) :
    Token → Option Machine
  | .colon => some { m with frames := .object entries key :: m.frames, mode := .value }
  | _ => none

/-- A comma, or the end of the innermost array or object. -/
def Machine.stepSeparator (m : Machine) (t : Token) : Option Machine :=
  match m.frames with
  | [] => none
  | .array items :: rest =>
    match t with
    | .comma => some { m with mode := .value }
    | .closeArray => some (.finish (.array items.reverse) rest (m.room + 1))
    | _ => none
  | .object entries _ :: rest =>
    match t with
    | .comma => some { m with frames := rest, mode := .key entries }
    | .closeObject => some (.finish (.object entries) rest (m.room + 1))
    | _ => none

def Machine.step (m : Machine) (t : Token) : Option Machine :=
  match m.mode with
  | .value => Machine.begin m.frames m.room t
  | .firstItem => m.stepFirstItem t
  | .firstKey => m.stepFirstKey t
  | .key entries => m.stepKey entries t
  | .colon entries key => m.stepColon entries key t
  | .separator => m.stepSeparator t
  | .done _ => none

def Machine.run (m : Machine) (tokens : List Token) : Option Machine := tokens.foldlM step m

/-- The reader of texts with at most `limit` nested arrays and objects, before the first token. -/
def Machine.start (limit : Nat) : Machine := { frames := [], room := limit, mode := .value }

/-- The document that a list of tokens spells, with at most `limit` nested arrays and objects. -/
def ofTokens? (limit : Nat) (tokens : List Token) : Option Json := do
  let m ← (Machine.start limit).run tokens
  match m.mode with
  | .done j => some j
  | _ => none

def ofText? (limit : Nat) (text : String) : Option Json := do
  let tokens ← tokens? text.toList
  ofTokens? limit tokens

end CallSampler.Json
