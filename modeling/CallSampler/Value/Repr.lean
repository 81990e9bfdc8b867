import CallSampler.Value.Heap
import CallSampler.Decimal.Layout

/-!
# The display form of values

Lists in brackets, tuples in parentheses, dicts in braces, strings quoted below the top. Only four
levels of containers are written; a container that stands deeper shows as three dots, which is also
what ends the display of a value that contains itself. An object writes its own description and
may refuse or panic, and then the whole has no display form.
-/

namespace CallSampler

inductive RenderFault where
  /-- A description refused, after it had written some text. -/
  | refused (written : String)
  /-- A description panicked. -/
  | panicked (message : String)
deriving DecidableEq, Repr

/-- How many levels of containers are written. -/
def reprLevels : Nat := 4

def Object.describe (o : Object) : Except RenderFault String :=
  match o.description with
  | .byType => .ok ("<" ++ o.typeName ++ " object>")
  | .text s => .ok s
  | .refuses written => .error (.refused written)
  | .panics message => .error (.panicked message)

/-- Texts with a comma and a blank between neighbours. -/
def commaSeparated : List String → String
  | [] => ""
  | s :: rest => s ++ String.join (rest.map (", " ++ ·))

/-- The text of a float in the display form. -/
def floatText (x : Float) : String := Decimal.Layout.display.text x

namespace Heap

/-- The display form of a value, writing so many levels of containers. -/
def render (h : Heap) (levels : Nat) (quoted : Bool) (v : Value) : Except RenderFault String :=
  match v with
  | .none => .ok "None"
  | .bool b => .ok (if b then "True" else "False")
  | .int i => .ok (toString i.toInt)
  | .float x => .ok (floatText x)
  | .str s => .ok (if quoted then "'" ++ s ++ "'" else s)
  | .function f => .ok ("<function " ++ f.name ++ ">")
  | .object cell =>
    match h.object? cell with
    | some o => o.describe
    | none => .ok ""
  | .list cell =>
    match levels with
    | 0 => .ok "..."
    | n + 1 => do
      let items ← (h.listAt cell).mapM (h.render n true)
      .ok ("[" ++ commaSeparated items ++ "]")
  | .tuple items =>
    match levels with
    | 0 => .ok "..."
    | n + 1 => do
      let texts ← items.mapM (h.render n true)
      .ok ("(" ++ commaSeparated texts ++ (if items.length = 1 then ",)" else ")"))
  | .dict cell =>
    match levels with
    | 0 => .ok "..."
    | n + 1 => do
      let texts ← (h.dictAt cell).mapM fun (k, v) => do
        let key ← h.render n true k
        let value ← h.render n true v
        .ok (key ++ ": " ++ value)
      .ok ("\x7b" ++ commaSeparated texts ++ "\x7d")

/-- The display form of a value on its own. -/
def display (h : Heap) (v : Value) : Except RenderFault String := h.render reprLevels false v

/-- The display form in which a string on its own is quoted too. -/
def repr (h : Heap) (v : Value) : Except RenderFault String := h.render reprLevels true v

end Heap

end CallSampler
