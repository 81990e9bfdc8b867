import CallSampler.Module
import CallSampler.Store

/-!
# Notices

Nothing on the recording path ever fails the host. What goes wrong there is said in a notice: one
line with a fixed tag, so that it can be told apart from the host's own output.
-/

namespace CallSampler

def tag : String := "[muestreo]"

def tagged (message : String) : String := tag ++ " " ++ message

/-- Something to say. -/
inductive Notice where
  /-- An entry of a store's file was no record. -/
  | droppedEntry (name : String)
  | loadFailed (cause : StoreError)
  | saveFailed (cause : StoreError)
  /-- The arguments of a call could not be captured. -/
  | captureFailed (label : String) (payload : Payload)
  /-- A function could not be wrapped. -/
  | wrapFailed (label : String) (cause : ReadOnlyBinding)
  | alreadyInstalled
  /-- Instrumentation is in place, and will write this file. -/
  | installed (file : Path)
deriving DecidableEq, Repr

namespace Notice

/-- A notice without its last detail. -/
def lead : Notice → String
  | .droppedEntry name => "Dropping unreadable cache entry " ++ name
  | .loadFailed cause => "Failed to load cache: " ++ cause.message
  | .saveFailed cause => "Failed to save cache: " ++ cause.message
  | .captureFailed label _ => "Failed to record call to " ++ label
  | .wrapFailed label _ => "Failed to wrap " ++ label
  | .alreadyInstalled => "Instrumentation already installed, reusing existing context"
  | .installed file => "Instrumentation installed. Cache: " ++ file.text

/-- The last detail of a notice, if it has one. -/
def detail? : Notice → Option String
  | .droppedEntry _ => some "not a function record"
  | .loadFailed cause => cause.cause?
  | .saveFailed cause => cause.cause?
  | .captureFailed _ payload => some payload.message
  | .wrapFailed _ cause => some cause.message
  | .alreadyInstalled => none
  | .installed _ => none

/-- The text of a notice: its lead and, behind a colon, its detail. -/
def text (n : Notice) : String :=
  match n.detail? with
  | some detail => n.lead ++ ": " ++ detail
  | none => n.lead

def ofLoad (dropped : List String) (failure? : Option StoreError) : List Notice :=
  dropped.map .droppedEntry ++ (failure?.map .loadFailed).toList

end Notice

end CallSampler
