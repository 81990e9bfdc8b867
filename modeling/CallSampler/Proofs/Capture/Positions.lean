import CallSampler.Proofs.Capture.Refusals
import CallSampler.Proofs.Capture.Truncation
import CallSampler.Proofs.Transparency.Follows

/-!
# What stands where in a capture

A capture goes through a value that may contain itself, so nothing but the levels that are left
bounds it: every list, tuple, dict and object spends one. The items of a list or tuple are captured
one after the other and keep their positions (`Run.Each`). To tell a marker that ends the levels
from a string of the same text, let the levels end in any document: the choice shows at one distance
from the root and nowhere else (`follows_captureDown`). All that is under a limit that is not the
greatest word; from the last depth on, that one ends nothing (`captureAt_greatest_nesting`).
-/

namespace CallSampler

/-! ## Where the levels end -/

namespace Json

/-- Put a document in the place of all that stands so many levels inside another. -/
def graft (mark : Json) : Nat → Json → Json
  | 0, _ => mark
  | n + 1, .array items => .array (items.map (graft mark n))
  | n + 1, .object entries => .object (entries.map fun e => (e.1, graft mark n e.2))
  | _ + 1, j => j

/-- To cut off is to put the marker there. -/
theorem graft_depthMarker (n : Nat) : graft (.string depthMarker) n = truncate n := by
  induction n with
  | zero => rfl
  | succ n ih =>
    funext j
    cases j with
    | array items => rw [graft, truncate, ih]
    | object entries => rw [graft, truncate, ih]
    | _ => rfl

end Json

section Marked

variable {answer : Answering} {mark : Json} {w w' : World}

/-- A document without room for a mark is made either way. -/
theorem follows_unmarked {n : Nat} {j : Json} (h : Json.graft mark n j = j) :
    Run.Mirrors id (Json.graft mark n) (pure j : Host Json) (pure j) := by
  have hpure : Run.Mirrors id (Json.graft mark n) (pure j : Host Json)
    (pure (Json.graft mark n j)) := Run.follows_pure j
  rwa [h] at hpure

/-- Assigned images are marked where the image of each is. -/
theorem graft_ofAssignments (n : Nat) (images : List (String × Json)) :
    Json.graft mark (n + 1) (.object (Entries.ofAssignments images)) =
      .object (Entries.ofAssignments (images.map fun e => (e.1, Json.graft mark n e.2))) := by
  rw [Json.graft, Entries.ofAssignments_map_value]

/-- What is inside of a value is marked a level closer to it. -/
theorem follows_captureNode {n : Nat} {inner inner' : Value → Host Json}
    (hi : ∀ v, Run.Mirrors id (Json.graft mark n) (inner v) (inner' v))
    (v : Value) : Run.Mirrors id (Json.graft mark (n + 1))
      (captureNode answer inner v) (captureNode answer inner' v) := by
  cases v with
  | list cell =>
    refine Run.follows_bind (Run.mirrors_self _) fun items => ?_
    exact Run.follows_bind (Run.follows_mapM hi items) fun images => Run.follows_pure _
  | tuple items =>
    exact Run.follows_bind (Run.follows_mapM hi items) fun images => Run.follows_pure _
  | dict cell =>
    refine Run.follows_bind (Run.mirrors_self _) fun entries => ?_
    refine Run.follows_bind (Run.follows_mapM (g := fun e => (e.1, Json.graft mark n e.2))
      (fun e => ?_) entries) fun images => ?_
    · refine Run.follows_bind (Run.mirrors_self _) fun key => ?_
      exact Run.follows_bind (hi e.2) fun image => Run.follows_pure (key, image)
    · rw [← graft_ofAssignments]
      exact Run.follows_pure _
  | object cell =>
    refine Run.follows_bind (Run.mirrors_self _) fun o? => ?_
    cases o? with
    | none => exact Run.follows_pure _
    | some o =>
      dsimp only [id]
      by_cases hc : o.callable
      · rw [if_pos hc, if_pos hc]
        exact Run.follows_pure _
      · rw [if_neg hc, if_neg hc]
        refine Run.follows_bind (Run.mirrors_self _) fun attributes? => ?_
        cases attributes? with
        | none =>
          have hdescription : Json.graft mark (n + 1) (captureDescription o) =
              captureDescription o := by
            unfold captureDescription
            split <;> rfl
          exact follows_unmarked hdescription
        | some attributes =>
          refine Run.follows_bind (Run.follows_mapM (g := fun e => (e.1, Json.graft mark n e.2))
            (fun a => ?_) _) fun images => ?_
          · exact Run.follows_bind (hi a.2) fun image => Run.follows_pure (a.1, image)
          · rw [← graft_ofAssignments]
            exact Run.follows_pure _
  | float x =>
    have hfloat : Json.graft mark (n + 1) (captureFloat x) = captureFloat x := by
      unfold captureFloat
      split <;> rfl
    exact follows_unmarked hfloat
  | _ => exact Run.follows_pure _

/-- What the levels end in shows where they do, and changes nothing else. -/
theorem follows_captureDown (levels : Nat) (v : Value) :
    Run.Mirrors id (Json.graft mark levels) (captureLevels answer levels v)
      (captureDown answer (fun _ => pure mark) levels v) := by
  induction levels generalizing v with
  | zero => exact Run.follows_pure _
  | succ levels ih => exact follows_captureNode ih v

end Marked

/-! ## Captures of any value -/

/-- A document that a capture made of a value at a depth keeps to the levels that are left. -/
structure KeepsLevels (o : Overflow) (answer : Answering) (maxDepth depth : UInt64) (v : Value)
    (w : World) (j : Json) (w' : World) : Prop where
  nesting : depth ≤ maxDepth → j.nesting ≤ maxDepth.toNat - depth.toNat + 1
  /-- The images of items stand where the items do, each captured a level deeper. -/
  items : ∀ items, w.heap.sequence? v = some items → depth ≤ maxDepth →
    ∃ images, j = .array images ∧ images.length = items.length ∧
      Run.Each (captureAt o answer maxDepth (depth + 1)) items w images w'
  /-- Where the levels end, all is the marker. -/
  ends : j.truncate (maxDepth.toNat + 1 - depth.toNat) = j
  /-- Any other document in its place would show at that distance from the root and nowhere
  else. -/
  marked : ∀ mark,
    captureDown answer (fun _ => pure mark) (maxDepth.toNat + 1 - depth.toNat) v w =
      (.ok (Json.graft mark (maxDepth.toNat + 1 - depth.toNat) j), w')

section Captures

variable {o : Overflow} {answer : Answering} {maxDepth depth : UInt64} {v : Value} {w w' : World}
  {j : Json}

theorem captureDown_of_captureLevels {levels : Nat}
    (h : captureLevels answer levels v w = (.ok j, w')) (mark : Json) :
    captureDown answer (fun _ => pure mark) levels v w = (.ok (Json.graft mark levels j), w') := by
  have hfollows : captureDown answer (fun _ => pure mark) levels v w =
      ((captureLevels answer levels v w).1.map (Json.graft mark levels),
        (captureLevels answer levels v w).2) := (follows_captureDown levels v).ends w
  rw [h] at hfollows
  exact hfollows

theorem keepsLevels (hmax : maxDepth + 1 ≠ 0)
    (h : captureAt o answer maxDepth depth v w = (.ok j, w')) :
    KeepsLevels o answer maxDepth depth v w j w' := by
  have hlevels := h
  rw [captureAt_eq_levels hmax] at hlevels
  refine ⟨fun hdepth => ?_, fun items hitems hdepth => ?_, ?_,
    captureDown_of_captureLevels hlevels⟩
  · have hle := UInt64.le_iff_toNat_le.mp hdepth
    rw [Nat.sub_add_comm hle] at hlevels
    exact (within_of_captureLevels hlevels).2
  · have hnext : depth + 1 ≠ 0 := Word.add_one_ne_zero_of_le hdepth hmax
    rw [captureAt_eq hnext, if_neg (UInt64.not_lt.mpr hdepth), captureNode_sequence hitems] at h
    obtain ⟨images, w₁, himages, h⟩ := Run.bind_eq_ok h
    cases h
    have heach := Run.each_of_mapM himages
    exact ⟨images, rfl, heach.length_eq, heach⟩
  · have hmarker := captureDown_of_captureLevels hlevels (.string depthMarker)
    rw [Json.graft_depthMarker] at hmarker
    exact (Outcome.ok.inj (Prod.mk.inj (hlevels.symm.trans hmarker)).1).symm

/-- A list and an object that contain each other and themselves, and a dict with both. -/
def circle : World :=
  { World.empty with heap := { Heap.empty with
      lists := #[[.list 0, .object 0]]
      dicts := #[[(.int 1, .list 0), (.str "1", .object 0)]]
      objects := #[{ typeName := "N", attributes := .listed [("home", .list 0), ("me", .object 0)]
                     callable := false, description := .byType }] } }

theorem returns_circle : (CallSampler.answer 0).Returns circle := by
  have hobject : ∀ cell o, circle.heap.object? cell = some o → cell = 0 := by
    intro cell o ho
    cases cell with
    | zero => rfl
    | succ cell => simp [circle, Heap.object?] at ho
  refine Answering.returns_of_still (fun cell o ho => ?_) fun cell o ho message => ?_
  all_goals
    obtain rfl := hobject cell o ho
    cases ho
  · exact ⟨_, rfl⟩
  · exact fun h => by cases h

end Captures

end CallSampler
