import CallSampler.Store

/-!
# Summaries

A summary condenses the records of a file to what type inference starts from: for each function,
busiest first, its call count, and for each slot the number of samples and the kinds they have.
-/

namespace CallSampler

structure SlotSummary where
  index : Nat
  /-- The parameter's name, if the recorded list reaches that far. -/
  name : Option String
  samples : Nat
  /-- The kinds of the samples, each once, in the order in which they first appear. -/
  kinds : List Json.Kind
deriving DecidableEq, Repr

structure FunctionSummary where
  name : String
  callCount : Nat
  slots : List SlotSummary
deriving DecidableEq, Repr

/-- All recorded functions, busiest first and, where the counts agree, in ascending order of their
names. -/
structure Summary where
  functions : List FunctionSummary
deriving DecidableEq, Repr

/-- The members of a list, each once, in the order in which they first appear. -/
def firstAppearances {α : Type} [DecidableEq α] (items : List α) : List α :=
  items.foldl (fun seen x => if x ∈ seen then seen else seen ++ [x]) []

def SlotSummary.ofSlot (r : Record) (slot : Nat × List Json) : SlotSummary where
  index := slot.1
  name := r.paramName? slot.1
  samples := slot.2.length
  kinds := firstAppearances (slot.2.map Json.kind)

def FunctionSummary.ofRecord (name : String) (r : Record) : FunctionSummary where
  name := name
  callCount := r.callCount.toNat
  slots := r.slots.map (SlotSummary.ofSlot r)

/-- Insert a function behind all those that were called at least as often. -/
def FunctionSummary.insert (f : FunctionSummary) : List FunctionSummary → List FunctionSummary
  | [] => [f]
  | g :: rest => if g.callCount < f.callCount then f :: g :: rest else g :: f.insert rest

inductive SummaryError where
  | missing (path : Path)
  | store (cause : StoreError)
deriving DecidableEq, Repr

def SummaryError.message : SummaryError → String
  | .missing path => "Cache file not found: " ++ path.text
  | .store cause => cause.message

/-- The cause of an error, where there is one to tell. -/
def SummaryError.cause? : SummaryError → Option String
  | .missing _ => none
  | .store cause => cause.cause?

namespace Summary

/-- The summary of records. Taking them in ascending order of their names leaves functions that were
called equally often in that order. -/
def ofRecords (entries : List (String × Record)) : Summary where
  functions := ((Entries.sorted entries).map fun e => FunctionSummary.ofRecord e.1 e.2).foldl
    (fun fs f => f.insert fs) []

/-- The summary of the file at a path, and the names of the entries it had to drop. A missing file
is an error here, unlike in a store. -/
def ofFile (d : Disk) (path : Path) : Except SummaryError (Summary × List String) :=
  match FileEntries.read d path with
  | .error e => .error (.store e)
  | .ok none => .error (.missing path)
  | .ok (some file) => .ok (ofRecords file.accepted, file.dropped)

def only (name : String) (s : Summary) : Summary :=
  { functions := s.functions.filter (·.name = name) }

def isEmpty (s : Summary) : Bool := s.functions.isEmpty

def totalCalls (s : Summary) : Nat :=
  (s.functions.map FunctionSummary.callCount).foldr (· + ·) 0

/-! ## The JSON form -/

def slotJson (p : SlotSummary) : Json :=
  .object
    [("index", .ofNat p.index), ("name", (p.name.map Json.string).getD .null),
     ("samples", .ofNat p.samples),
     ("kinds", .array (p.kinds.map fun k => .string k.name))]

def functionJson (f : FunctionSummary) : Json :=
  .object
    [("name", .string f.name), ("callCount", .ofNat f.callCount),
     ("params", .array (f.slots.map slotJson))]

def toJson (s : Summary) : Json :=
  .object [("functions", .array (s.functions.map functionJson))]

/-! ## The table -/

def times (n : Nat) (text : String) : String := String.join (List.replicate n text)

/-- Fill a cell with blanks on the right up to a number of characters. -/
def padRight (width : Nat) (text : String) : String := text ++ times (width - text.length) " "

/-- Fill a cell with blanks on the left up to a number of characters. -/
def padLeft (width : Nat) (text : String) : String := times (width - text.length) " " ++ text

def tableRow (name calls params : String) : String :=
  padRight 50 name ++ " " ++ padLeft 10 calls ++ " " ++ padLeft 10 params

def slotRow (p : SlotSummary) : String :=
  let label := "[" ++ Nat.repr p.index ++ "]" ++ ((p.name.map (" " ++ ·)).getD "")
  "    " ++ padRight 30 label ++ " " ++ padLeft 6 (Nat.repr p.samples) ++ " samples  " ++
    " | ".intercalate (p.kinds.map Json.Kind.name)

/-- The lines of a function: its own and one for each slot. -/
def functionRows (f : FunctionSummary) : List String :=
  tableRow f.name (Nat.repr f.callCount) (Nat.repr f.slots.length) :: f.slots.map slotRow

def banner : List String :=
  ["╔" ++ times 80 "═" ++ "╗",
   "║" ++ padRight 80 "  Argument Samples (sorted by call count)" ++ "║",
   "╚" ++ times 80 "═" ++ "╝",
   ""]

/-- The lines of the table for a human reader. -/
def tableLines (s : Summary) : List String :=
  if s.isEmpty then ["No recorded functions."]
  else
    banner ++ [tableRow "Function" "Calls" "Params", times 72 "─"] ++
      s.functions.flatMap functionRows ++
      [times 72 "─",
       Nat.repr s.functions.length ++ " functions, " ++ Nat.repr s.totalCalls ++ " calls"]

def table (s : Summary) : String := String.join (s.tableLines.map (· ++ "\n"))

end Summary

end CallSampler
