import CallSampler.Proofs.Calls.Trails
import CallSampler.Proofs.Record.Slots
import Mathlib.Data.List.Forall2

/-!
# The kinds of captured arguments

The samples of an index are the images of the arguments that land at it, in the order in which they
are captured (`images_pushedTo`). The kind of the image of a value is told by the value alone, and
for an object by whether it answers with attributes when its capture begins (`Value.imageKind`). So
the samples of a recorded call have the kinds of the arguments that they were made of, index by
index (`RecordedCall.kinds_pushedTo`).
-/

namespace CallSampler

/-- The kind of the image of an object: a dict of its attributes if it answers with some, and a text
if it does not or counts as callable. -/
def Object.imageKind (answer : Answering) (w : World) (o : Object) : Json.Kind :=
  if o.callable then .str
  else match (answer o w).1 with
    | .ok (some _) => .dict
    | _ => .str

/-- The kind of the image of a value. A reference to no object, which no value is, would be null. -/
def Value.imageKind (answer : Answering) (w : World) : Value → Json.Kind
  | .none => .null
  | .bool _ => .bool
  | .int _ => .int
  | .float x => if x.isFinite then .float else .str
  | .str _ => .str
  | .function _ => .str
  | .list _ => .list
  | .tuple _ => .list
  | .dict _ => .dict
  | .object cell => ((w.heap.object? cell).map (Object.imageKind answer w)).getD .null

variable {answer : Answering} {w w' : World}

theorem kind_captureDescription (o : Object) : (captureDescription o).kind = .str := by
  unfold captureDescription
  cases o.describe <;> rfl

/-- Where there is room for it, the image of a value is of its kind. -/
theorem kind_captureLevels {levels : Nat} {v : Value} {j : Json}
    (h : captureLevels answer (levels + 1) v w = (.ok j, w')) : j.kind = v.imageKind answer w := by
  cases v with
  | none | bool b | int i | str s | function f => cases h; rfl
  | float x =>
    cases h
    show (captureFloat x).kind = if x.isFinite then .float else .str
    unfold captureFloat
    split <;> rfl
  | list cell =>
    obtain ⟨items, w₁, -, h⟩ := Run.bind_eq_ok h
    obtain ⟨images, w₂, -, h⟩ := Run.bind_eq_ok h
    cases h
    rfl
  | tuple items =>
    obtain ⟨images, w₁, -, h⟩ := Run.bind_eq_ok h
    cases h
    rfl
  | dict cell =>
    obtain ⟨entries, w₁, -, h⟩ := Run.bind_eq_ok h
    obtain ⟨images, w₂, -, h⟩ := Run.bind_eq_ok h
    cases h
    rfl
  | object cell =>
    obtain ⟨o?, w₁, hinspect, h⟩ := Run.bind_eq_ok h
    obtain ⟨ho, rfl⟩ : w.heap.object? cell = o? ∧ w = w₁ := by
      cases hinspect
      exact ⟨rfl, rfl⟩
    show j.kind = ((w.heap.object? cell).map (Object.imageKind answer w)).getD .null
    rw [ho]
    cases o? with
    | none =>
      cases h
      rfl
    | some o =>
      rw [Option.map_some, Option.getD_some, Object.imageKind]
      dsimp only at h
      by_cases hcallable : o.callable
      · rw [if_pos hcallable] at h ⊢
        cases h
        rfl
      · rw [if_neg hcallable] at h ⊢
        obtain ⟨attributes?, w₂, hanswer, h⟩ := Run.bind_eq_ok h
        rw [hanswer]
        cases attributes? with
        | none =>
          cases h
          exact kind_captureDescription o
        | some attributes =>
          obtain ⟨images, w₃, -, h⟩ := Run.bind_eq_ok h
          cases h
          rfl

/-! ## Arguments -/

/-- An argument that was captured, at the index that it lands at, and the world when its capture
began. -/
structure CapturedArgument where
  value : Value
  index : Nat
  answer : Answering
  before : World

/-- The kind of the image of an argument. -/
def CapturedArgument.kind (a : CapturedArgument) : Json.Kind := a.value.imageKind a.answer a.before

/-- Arguments are captured one after the other. -/
def argumentsFrom (answer : Answering) (maxDepth : Nat) :
    List (Value × Nat) → World → List CapturedArgument
  | [], _ => []
  | v :: rest, w =>
    { value := v.1, index := v.2, answer, before := w } ::
      argumentsFrom answer maxDepth rest (captureSample answer maxDepth v w).2

/-- The document is the image of the argument. -/
def CapturedArgument.Image (maxDepth : Nat) (a : CapturedArgument) (j : Json) : Prop :=
  ∃ w, capture a.answer maxDepth a.value a.before = (.ok j, w)

/-- Every sample is at the index of its argument and is its image. -/
theorem images_of_mapM {maxDepth : Nat} {items : List (Value × Nat)} {samples : List Sample}
    (h : items.mapM (captureSample answer maxDepth) w = (.ok samples, w')) :
    List.Forall₂ (fun a s => s.1 = a.index ∧ a.Image maxDepth s.2)
      (argumentsFrom answer maxDepth items w) samples := by
  induction items generalizing w samples with
  | nil =>
    cases h
    exact .nil
  | cons v rest ih =>
    rw [List.mapM_cons] at h
    obtain ⟨s, w₁, hs, h⟩ := Run.bind_eq_ok h
    obtain ⟨more, w₂, hmore, h⟩ := Run.bind_eq_ok h
    cases h
    have hrest := ih hmore
    rw [argumentsFrom, hs]
    obtain ⟨j, w₃, hj, hs⟩ := Run.bind_eq_ok hs
    cases hs
    exact .cons ⟨rfl, w₁, hj⟩ hrest

/-- The samples of an index are the images of its arguments. -/
theorem images_pushedTo {maxDepth : Nat} {items : List (Value × Nat)} {samples : List Sample}
    (h : items.mapM (captureSample answer maxDepth) w = (.ok samples, w')) (index : Nat) :
    List.Forall₂ (CapturedArgument.Image maxDepth)
      ((argumentsFrom answer maxDepth items w).filter (·.index == index))
      (Record.pushedTo index samples) := by
  have hfilter : List.Forall₂ (fun a s => s.1 = a.index ∧ a.Image maxDepth s.2)
      ((argumentsFrom answer maxDepth items w).filter (·.index == index))
      (samples.filter (·.1 == index)) :=
    List.rel_filter (fun _ _ has => by simp only [has.1]) (images_of_mapM h)
  rw [Record.pushedTo, List.forall₂_map_right_iff]
  exact hfilter.imp fun _ _ has => has.2

namespace RecordedCall

/-- The arguments that a call captured. -/
def arguments (c : RecordedCall) : List CapturedArgument :=
  argumentsFrom c.answer c.maxDepth c.items c.before

/-- The arguments that a call captured at an index. -/
def argumentsAt (index : Nat) (c : RecordedCall) : List CapturedArgument :=
  c.arguments.filter (·.index == index)

/-- The samples of an index are of the kinds of its arguments. -/
theorem kinds_pushedTo {c : RecordedCall} (h : c.Complete) (index : Nat) :
    (Record.pushedTo index c.samples).map Json.kind =
      (c.argumentsAt index).map CapturedArgument.kind := by
  obtain ⟨w, hw⟩ := h
  rw [← List.forall₂_eq_eq_eq, List.forall₂_map_left_iff, List.forall₂_map_right_iff]
  exact (images_pushedTo hw index).flip.imp fun _ _ ⟨_, hcapture⟩ => kind_captureLevels hcapture

end RecordedCall

end CallSampler
