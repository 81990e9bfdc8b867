import CallSampler.Module
import CallSampler.Text.Quoted
import CallSampler.Value.Repr

/-!
# Inspection

What a developer sees of a function or a module: the name of its type and its fields in braces, an
optional field as `Some(..)` or `None`, a list in brackets. Of a module's bindings only the names
are shown.
-/

namespace CallSampler

def inspectOption : Option String → String
  | some text => "Some(" ++ text ++ ")"
  | none => "None"

def inspectList (texts : List String) : String := "[" ++ commaSeparated texts ++ "]"

def inspectFields (typeName : String) (fields : List (String × String)) : String :=
  typeName ++ " \x7b " ++ commaSeparated (fields.map fun f => f.1 ++ ": " ++ f.2) ++ " \x7d"

def Signature.inspect (s : Signature) : String :=
  inspectFields "NativeFunction"
    [("name", Text.quoted s.name),
     ("module", inspectOption (s.owner.map Text.quoted)),
     ("params", inspectOption (s.parameters.map fun ps => inspectList (ps.map Text.quoted)))]

def Module.inspect (m : Module) : String :=
  inspectFields "Module"
    [("name", Text.quoted m.name),
     ("file", inspectOption (m.file.map fun p => Text.quotedFileName p.text)),
     ("names", inspectList ((Entries.keys m.bindings).map Text.quoted))]

end CallSampler
