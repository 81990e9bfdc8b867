import CallSampler.Value.Repr
import CallSampler.World

/-!
# Capture

Capturing turns a value into a document, bounded by depth: what stands deeper than the limit is a
marker, and so is what has no document form. Depth alone ends the capture of a value that contains
itself. Objects are asked for their attributes while they are captured, which may run host code,
and so capture is a run; how an object answers is a parameter.
-/

namespace CallSampler

/-- Stands for anything nested deeper than the limit. -/
def depthMarker : String := "[Max Depth Exceeded]"

/-- Stands for anything callable. -/
def functionMarker : String := "[Function]"

/-- Stands for an object whose description fails. -/
def unserializableMarker : String := "[Unserializable]"

def defaultMaxDepth : Nat := 10

/-- What a panic says when a description refuses where there is no room for a marker. -/
def refusalMessage : String := "a Display implementation returned an error unexpectedly: Error"

/-- The panic that a failure to render ends in. -/
def RenderFault.payload : RenderFault → Payload
  | .refused _ => .text refusalMessage
  | .panicked message => .text message

/-- A finite float is a number, any other one the text of its display form. -/
def captureFloat (x : Float) : Json :=
  if x.isFinite then .number (.float x) else .string (floatText x)

/-- The description of an object, or a marker if it refuses or panics. -/
def captureDescription (o : Object) : Json :=
  match o.describe with
  | .ok text => .string text
  | .error _ => .string unserializableMarker

/-- The text of a dict key: a string is itself, and all else its display form. -/
def Heap.keyText (h : Heap) (key : Value) : Except RenderFault String :=
  match key with
  | .str s => .ok s
  | key => h.display key

/-- The text of a dict key, in a run. There is no marker for a key, so a failure panics. -/
def renderKey (key : Value) : Host String := do
  match ← Run.inspect fun w => w.heap.keyText key with
  | .ok text => pure text
  | .error fault => Run.panic fault.payload

/-- Whether an attribute is captured: private names start with an underscore. -/
def isPublic (name : String) : Bool := name.toList.head? ≠ some '_'

/-- How an object answers when it is asked for its attributes. -/
abbrev Answering : Type := Object → Host (Option (List (String × Value)))

/-- Capture an entry of a dict: the text of its key, and then its value. -/
def captureEntry (inner : Value → Host Json) (e : Value × Value) : Host (String × Json) := do
  let key ← renderKey e.1
  let image ← inner e.2
  pure (key, image)

def captureAttribute (inner : Value → Host Json) (a : String × Value) : Host (String × Json) := do
  let image ← inner a.2
  pure (a.1, image)

/-- Capture one level of a value, and what is inside of it by `inner`. -/
def captureNode (answer : Answering) (inner : Value → Host Json) : Value → Host Json
  | .none => pure .null
  | .bool b => pure (.bool b)
  | .int i => pure (.number (.integer i.toInt))
  | .float x => pure (captureFloat x)
  | .str s => pure (.string s)
  | .function _ => pure (.string functionMarker)
  | .list cell => do
    let items ← Run.inspect fun w => w.heap.listAt cell
    let images ← items.mapM inner
    pure (.array images)
  | .tuple items => do
    let images ← items.mapM inner
    pure (.array images)
  | .dict cell => do
    let entries ← Run.inspect fun w => w.heap.dictAt cell
    let images ← entries.mapM (captureEntry inner)
    pure (.object (Entries.ofAssignments images))
  | .object cell => do
    match ← Run.inspect fun w => w.heap.object? cell with
    | none => pure .null
    | some o =>
      if o.callable then pure (.string functionMarker)
      else match ← answer o with
        | none => pure (captureDescription o)
        | some attributes => do
          let images ← (attributes.filter fun a => isPublic a.1).mapM (captureAttribute inner)
          pure (.object (Entries.ofAssignments images))

section Nodes

variable {answer : Answering} {inner : Value → Host Json} {w : World} {cell : Nat} {o : Object}

theorem captureNode_list : captureNode answer inner (.list cell) w =
    ((w.heap.listAt cell).mapM inner >>= fun images => pure (.array images)) w := rfl

theorem captureNode_tuple (items : List Value) : captureNode answer inner (.tuple items) =
    items.mapM inner >>= fun images => pure (.array images) := rfl

theorem captureNode_dict : captureNode answer inner (.dict cell) w =
    ((w.heap.dictAt cell).mapM (captureEntry inner) >>= fun images =>
      pure (.object (Entries.ofAssignments images))) w := rfl

theorem lookup_object (ho : w.heap.object? cell = some o) :
    (Run.inspect fun w => w.heap.object? cell : Host _) w = (.ok (some o), w) := by
  rw [Run.inspect, ho]

theorem captureNode_missing (ho : w.heap.object? cell = none) :
    captureNode answer inner (.object cell) w = (.ok .null, w) := by
  rw [captureNode, Run.bind_apply, Run.inspect, ho]
  rfl

/-- A callable object is not asked. -/
theorem captureNode_callable (ho : w.heap.object? cell = some o) (hc : o.callable = true) :
    captureNode answer inner (.object cell) w = (.ok (.string functionMarker), w) := by
  rw [captureNode, Run.bind_apply, lookup_object ho]
  exact congrFun (if_pos hc) w

/-- Any other object is asked for its attributes, and then they or its description are captured. -/
theorem captureNode_object (ho : w.heap.object? cell = some o) (hc : o.callable = false) :
    captureNode answer inner (.object cell) w =
      (answer o >>= fun attributes? =>
        match attributes? with
        | none => pure (captureDescription o)
        | some attributes =>
          (attributes.filter fun a => isPublic a.1).mapM (captureAttribute inner) >>= fun images =>
            pure (.object (Entries.ofAssignments images))) w := by
  rw [captureNode, Run.bind_apply, lookup_object ho]
  exact congrFun (if_neg (Bool.eq_false_iff.mp hc)) w

end Nodes

/-! ## From a depth on -/

/-- What is captured beyond the limit. -/
def captureMarker (_ : Value) : Host Json := pure (.string depthMarker)

/-- Capture a value that stands at a depth, down to a limit, and by `beyond` what is inside of one
that stands at the last depth there is. -/
def captureFrom (answer : Answering) (beyond : Value → Host Json) (maxDepth depth : UInt64) :
    Value → Host Json :=
  if maxDepth < depth then captureMarker
  else if depth + 1 = 0 then captureNode answer beyond
  else captureNode answer (captureFrom answer beyond maxDepth (depth + 1))
termination_by wordLimit - depth.toNat
decreasing_by
  have hlt := Word.toNat_lt depth
  have hnext := Word.toNat_add_one_of_ne ‹depth + 1 ≠ 0›
  omega

/-- Capture what is inside of a value at the last depth there is. A host that checks its sums
panics. Any other starts again at depth zero, and has no room for all depths a second time. -/
def captureOverflow (o : Overflow) (answer : Answering) (maxDepth : UInt64) : Value → Host Json :=
  match o with
  | .panics => fun _ => Run.panic (.text Overflow.message)
  | .wraps => captureFrom answer (fun _ => Run.exhaust) maxDepth 0

/-- Capture a value that stands at a depth, down to a limit. -/
def captureAt (o : Overflow) (answer : Answering) (maxDepth depth : UInt64) : Value → Host Json :=
  captureFrom answer (captureOverflow o answer maxDepth) maxDepth depth

/-- Capture what is inside of a value that stands at a depth. -/
def captureBelow (o : Overflow) (answer : Answering) (maxDepth depth : UInt64) :
    Value → Host Json :=
  if depth + 1 = 0 then captureOverflow o answer maxDepth
  else captureAt o answer maxDepth (depth + 1)

section Depths

variable {o : Overflow} {answer : Answering} {maxDepth depth : UInt64}

/-- At any but the last depth a value beyond the limit is the marker, and of any other a level is
captured and what is inside of it one deeper. -/
theorem captureAt_eq (h : depth + 1 ≠ 0) : captureAt o answer maxDepth depth =
    if maxDepth < depth then captureMarker
    else captureNode answer (captureAt o answer maxDepth (depth + 1)) := by
  rw [captureAt, captureFrom, if_neg h]
  rfl

/-- Beyond the limit there is nothing but the marker. -/
theorem captureAt_of_lt (h : maxDepth < depth) :
    captureAt o answer maxDepth depth = captureMarker := by
  rw [captureAt, captureFrom, if_pos h]

/-- Down to the limit a level is captured, and what is inside of the value one deeper. -/
theorem captureAt_of_le (h : depth ≤ maxDepth) :
    captureAt o answer maxDepth depth =
      captureNode answer (captureBelow o answer maxDepth depth) := by
  rw [captureAt, captureFrom, if_neg (UInt64.not_lt.mpr h), captureBelow]
  split <;> rfl

theorem captureBelow_of_ne (h : depth + 1 ≠ 0) :
    captureBelow o answer maxDepth depth = captureAt o answer maxDepth (depth + 1) := if_neg h

end Depths

/-! ## From the top -/

/-- Capture a value, going so many levels down, and by `beyond` what is below them. -/
def captureDown (answer : Answering) (beyond : Value → Host Json) : Nat → Value → Host Json
  | 0 => beyond
  | levels + 1 => captureNode answer (captureDown answer beyond levels)

/-- Capture a value, going so many levels deep. Zero levels leave nothing but the marker. -/
def captureLevels (answer : Answering) : Nat → Value → Host Json :=
  captureDown answer captureMarker

/-- Capture a value on its own. -/
def capture (answer : Answering) (maxDepth : Nat) (v : Value) : Host Json :=
  captureLevels answer (maxDepth + 1) v

/-- Capture a value that lands at an index. -/
def captureSample (answer : Answering) (maxDepth : Nat) (v : Value × Nat) : Host Sample := do
  let image ← capture answer maxDepth v.1
  pure (v.2, image)

/-- The keyword arguments that the parameter names know, each with the index of its parameter. -/
def namedArguments (args : Arguments) (paramNames : List String) : List (Value × Nat) :=
  paramNames.zipIdx.filterMap fun (name, i) =>
    (Entries.get? name args.keywords).map fun v => (v, i)

/-- The samples of one call. Positional arguments land at their index. Keyword arguments are looked
up by the parameter names and land at the index of their parameter, after them. -/
def captureArguments (answer : Answering) (maxDepth : Nat) (args : Arguments)
    (paramNames : List String) : Host (List Sample) := do
  let positional ← args.positional.zipIdx.mapM (captureSample answer maxDepth)
  let keywords ← (namedArguments args paramNames).mapM (captureSample answer maxDepth)
  pure (positional ++ keywords)

end CallSampler
