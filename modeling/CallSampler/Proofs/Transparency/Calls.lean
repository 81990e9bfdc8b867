import CallSampler.Proofs.Calls.Counting
import CallSampler.Proofs.Transparency.Bare
import CallSampler.Proofs.Transparency.Follows

/-!
# Calls without interceptors

Where no object calls a function when it is asked for its attributes, capturing arguments leaves the
world alone, though it may panic (`still_captureArguments`), and recording a call turns even that
into a notice (`recordCall_unseen`). Only a count that is full may get in the way, on a host that
checks its sums (`World.Full`). Anywhere else an interceptor passes on what the function underneath
does, and by induction on the shape of functions and bodies and on the fuel every call ends as it
does without interceptors (`follows_invoke`).
-/

namespace CallSampler

/-- The object does not call functions when it is asked for its attributes. It may panic. -/
def Object.Quiet (o : Object) : Prop :=
  match o.attributes with
  | .calls _ _ => False
  | _ => True

/-- No object calls functions. -/
def Heap.Quiet (h : Heap) : Prop := ∀ o ∈ h.objects, o.Quiet

abbrev World.Quiet (w : World) : Prop := w.heap.Quiet

/-! ## Capturing -/

section Capturing

variable {call : Calling} {w : World}

theorem still_answerBy {o : Object} (ho : o.Quiet) : (answerBy call o).Still w := by
  unfold answerBy
  unfold Object.Quiet at ho
  split
  next => exact Run.still_pure none
  next entries _ => exact Run.still_pure (some entries)
  next payload _ => exact Run.still_panic payload
  next hcalls => simp [hcalls] at ho

theorem still_renderKey (key : Value) : (renderKey key).Still w := by
  refine (Run.still_inspect _).bind fun text => ?_
  cases text with
  | ok text => exact Run.still_pure text
  | error fault => exact Run.still_panic fault.payload

theorem still_captureNode (hw : w.Quiet) {inner : Value → Host Json}
    (hi : ∀ v, (inner v).Still w) (v : Value) :
    (captureNode (answerBy call) inner v).Still w := by
  cases v with
  | list cell =>
    exact (Run.still_inspect _).bind fun items =>
      (Run.still_mapM hi).bind fun images => Run.still_pure _
  | tuple items => exact (Run.still_mapM hi).bind fun images => Run.still_pure _
  | dict cell =>
    refine (Run.still_inspect _).bind fun entries => Run.Still.bind ?_ fun images =>
      Run.still_pure _
    exact Run.still_mapM fun e => (still_renderKey e.1).bind fun key =>
      (hi e.2).bind fun image => Run.still_pure _
  | object cell =>
    refine Run.still_inspect_bind ?_
    cases ho : w.heap.object? cell with
    | none => exact Run.still_pure _
    | some o =>
      have hquiet : o.Quiet := hw o (Array.mem_of_getElem? ho)
      dsimp only
      split
      next => exact Run.still_pure _
      next =>
        refine (still_answerBy hquiet).bind fun attributes? => ?_
        cases attributes? with
        | none => exact Run.still_pure _
        | some attributes =>
          refine Run.Still.bind ?_ fun images => Run.still_pure _
          exact Run.still_mapM fun e => (hi e.2).bind fun image => Run.still_pure _
  | _ => exact Run.still_pure _

/-- Capturing a value leaves a quiet world alone. -/
theorem still_captureLevels (hw : w.Quiet) (levels : Nat) (v : Value) :
    (captureLevels (answerBy call) levels v).Still w := by
  induction levels generalizing v with
  | zero => exact Run.still_pure _
  | succ levels ih => exact still_captureNode hw ih v

/-- Capturing the arguments of a call leaves a quiet world alone. -/
theorem still_captureArguments (hw : w.Quiet) (maxDepth : Nat) (args : Arguments)
    (paramNames : List String) :
    (captureArguments (answerBy call) maxDepth args paramNames).Still w := by
  have hsample : ∀ v : Value × Nat, (captureSample (answerBy call) maxDepth v).Still w := fun v =>
    (still_captureLevels hw _ v.1).bind fun image => Run.still_pure _
  exact (Run.still_mapM hsample).bind fun positional =>
    (Run.still_mapM hsample).bind fun keywords => Run.still_pure _

/-- Recording a call shows nowhere but in the stores and the log. It fails the call only where the
world is full then, and a full world stays full. -/
theorem recordCall_unseen (hw : w.Quiet) (label : String) (paramNames : List String)
    (store maxDepth : Nat) (args : Arguments) :
    let (outcome, w') := recordCall call label paramNames store maxDepth args w
    w'.bare = w.bare ∧ w'.Quiet ∧ (w.Full → w'.Full) ∧ (outcome = .ok () ∨ w'.Full) := by
  have hstill : (captureArguments (answerBy call) maxDepth args paramNames).Still w :=
    still_captureArguments hw maxDepth args paramNames
  rcases hstill with ⟨samples, h⟩ | ⟨payload, h⟩
  · have hrun : recordCall call label paramNames store maxDepth args w =
        keepCall store label samples paramNames w := by
      simp only [recordCall, Run.bind_apply, Run.catchPanic, h]
    rw [hrun, keepCall_eq]
    refine ⟨rfl, hw, fun hfull => hfull.onStore_keep samples paramNames, ?_⟩
    cases hover : w.overflows store label with
    | true => exact .inr ((World.full_of_overflows hover).onStore_keep samples paramNames)
    | false => exact .inl rfl
  · have hrun : recordCall call label paramNames store maxDepth args w =
        (.ok (), w.notify (.captureFailed label payload)) := by
      simp only [recordCall, Run.bind_apply, Run.catchPanic, h, Run.update]
    rw [hrun]
    exact ⟨rfl, hw, id, .inl rfl⟩

end Capturing

/-! ## Bodies -/

/-- A run of host code follows another: the same end, with the world as it is without
interceptors, unless a count is full that the host would panic over. -/
abbrev Host.Follows {α β : Type} (f : α → β) (x : Host α) (y : Host β) : Prop :=
  Run.Follows World.bare World.Quiet World.Full f x y

/-- Every call follows the call of the same function without interceptors. -/
abbrev Calling.Transparent (call : Calling) : Prop :=
  ∀ f args, Host.Follows Value.bare (call f args) (call f.bare args.bare)

section Bodies

variable {call : Calling}

/-- Something that is done to the heap and makes no objects. -/
theorem follows_onHeap {α β : Type} {f : α → β} {p : Heap → α × Heap} {q : Heap → β × Heap}
    (h : ∀ heap : Heap, q heap.bare = (p heap).map f Heap.bare)
    (ho : ∀ heap : Heap, (p heap).2.objects = heap.objects) :
    Host.Follows f (Run.step (World.onHeap p)) (Run.step (World.onHeap q)) := by
  refine Run.follows_step (fun w hw => ⟨?_, ?_⟩) fun _ h => h
  · simp only [World.onHeap, World.bare, h, Prod.map]
  · show ∀ o ∈ (p w.heap).2.objects, o.Quiet
    rw [ho]
    exact hw

theorem follows_callValue (hc : call.Transparent) (v : Value) (args : Arguments) :
    Host.Follows Value.bare (callValue call v args) (callValue call v.bare args.bare) := by
  cases v with
  | function f => exact hc f args
  | _ => exact Run.follows_fail _

theorem follows_callVariable (hc : call.Transparent) (name : String) (args : Arguments) :
    Host.Follows Value.bare (callVariable call name args) (callVariable call name args.bare) := by
  refine Run.follows_bind (Run.follows_inspect fun w => Heap.lookup?_bare w.heap name) fun v? => ?_
  cases v? with
  | none => exact Run.follows_fail _
  | some v => exact follows_callValue hc v args

theorem sumArguments_bare (args : Arguments) (i : Nat) (names : List String) :
    sumArguments args.bare i names = sumArguments args i names := by
  induction names generalizing i with
  | nil => rfl
  | cons name rest ih =>
    rw [sumArguments, sumArguments, ih, Arguments.get?_bare]
    cases args.get? i name with
    | none => rfl
    | some v => simp

theorem collectArguments_bare (args : Arguments) (h : Heap) :
    collectArguments args.bare h.bare = (collectArguments args h).map Value.bare Heap.bare := by
  have hsorted : (Entries.sorted args.bare.keywords).map (fun e => (Value.str e.1, e.2)) =
      ((Entries.sorted args.keywords).map fun e => (Value.str e.1, e.2)).map bareEntry := by
    rw [Arguments.bare, bareNamed, Entries.sorted_map_value, List.map_map, List.map_map]
    rfl
  have hk : ∀ a ∈ (Entries.sorted args.keywords).map (fun e => (Value.str e.1, e.2)),
      a.1.FunctionFree := by
    intro a ha
    obtain ⟨e, -, rfl⟩ := List.mem_map.mp ha
    trivial
  unfold collectArguments
  rw [hsorted]
  simp only [Arguments.bare, Heap.newList_bare, Prod.map, Heap.newDict_bare _ hk, Value.bare,
    Value.bareItems]

theorem follows_changeFirst {p q : Value → Heap → Bool × Heap}
    (h : ∀ v (heap : Heap), q v.bare heap.bare = (p v heap).map id Heap.bare)
    (ho : ∀ v (heap : Heap), (p v heap).2.objects = heap.objects) (args : Arguments) :
    Host.Follows Value.bare (changeFirst p args) (changeFirst q args.bare) := by
  unfold changeFirst
  obtain ⟨positional, keywords⟩ := args
  cases positional with
  | nil => exact Run.follows_pure _
  | cons target rest =>
    exact Run.follows_bind (follows_onHeap (h target) (ho target)) fun changed =>
      Run.follows_pure _

theorem objects_push (target item : Value) (h : Heap) :
    (h.push target item).2.objects = h.objects := by
  cases target <;> rfl

theorem objects_insert (target key item : Value) (h : Heap) :
    (h.insert target key item).2.objects = h.objects := by
  cases target <;> rfl

theorem follows_assignFirst (name : String) (args : Arguments) :
    Host.Follows Value.bare (assignFirst name args) (assignFirst name args.bare) := by
  unfold assignFirst
  have hv : args.bare.first.getD .none = (args.first.getD .none).bare := by
    rw [Arguments.first_bare]
    cases args.first <;> rfl
  rw [hv]
  refine Run.follows_bind (f := id) (Run.follows_update (fun w hw => ⟨?_, by exact hw⟩)
    fun _ h => by exact h) fun _ => Run.follows_pure _
  simp only [World.bare, Heap.assign_bare]

theorem follows_bindFirst (args : Arguments) :
    Host.Follows Value.bare (bindFirst args) (bindFirst args.bare) := by
  unfold bindFirst
  rw [Arguments.first_bare]
  cases args.first with
  | none => exact Run.follows_fail _
  | some v =>
    cases v with
    | function f =>
      have hsecond : args.bare.positional[1]? = (args.positional[1]?).map Value.bare :=
        List.getElem?_map
      refine Run.follows_bind (f := Callable.bare) ?_ fun method => Run.follows_pure _
      rw [hsecond]
      refine follows_onHeap (fun heap => Heap.bind_bare heap f _) fun heap => ?_
      cases args.positional[1]? <;> rfl
    | _ => exact Run.follows_fail _

/-- What a body does with the first argument and the heap. -/
theorem follows_inspectFirst (p : Heap → Value → Option Value)
    (h : ∀ (heap : Heap) v, p heap.bare v.bare = (p heap v).map Value.bare) (args : Arguments) :
    Host.Follows Value.bare (Run.inspect fun w => (args.first.bind (p w.heap)).getD .none)
      (Run.inspect fun w => (args.bare.first.bind (p w.heap)).getD .none) := by
  refine Run.follows_inspect fun w => ?_
  rw [Arguments.first_bare]
  cases args.first with
  | none => rfl
  | some v =>
    simp only [Option.map_some, Option.bind_some, World.bare, h]
    cases p w.heap v <;> rfl

/-- A body does the same with arguments that carry interceptors and with bare ones. -/
theorem follows_runBody (hc : call.Transparent) (body : Body Value) (args : Arguments) :
    Host.Follows Value.bare (runBody call body args)
      (runBody call (Callable.bareBody body) args.bare) := by
  induction body generalizing args with
  | nothing => exact Run.follows_pure _
  | echo =>
    simp only [Callable.bareBody, runBody, Arguments.first_bare]
    cases args.first <;> exact Run.follows_pure _
  | argument index =>
    have h : args.bare.positional[index]? = (args.positional[index]?).map Value.bare :=
      List.getElem?_map
    simp only [Callable.bareBody, runBody, h]
    cases args.positional[index]? <;> exact Run.follows_pure _
  | count =>
    simp only [Callable.bareBody, runBody, Arguments.count_bare]
    exact Run.follows_pure _
  | collect => exact follows_onHeap (collectArguments_bare args) fun heap => rfl
  | sum names =>
    simp only [Callable.bareBody, runBody, sumArguments_bare]
    exact Run.follows_pure _
  | give v => exact Run.follows_pure _
  | fail text => exact Run.follows_fail _
  | panic text => exact Run.follows_panic _
  | append item =>
    exact follows_changeFirst (fun v heap => heap.push_bare v item)
      (fun v heap => objects_push v item heap) args
  | insert key item =>
    exact follows_changeFirst (fun v heap => heap.insert_bare v (.str key) item trivial)
      (fun v heap => objects_insert v _ item heap) args
  | item index =>
    exact follows_inspectFirst (fun heap v => heap.item? v index)
      (fun heap v => heap.item?_bare v index) args
  | entry key =>
    exact follows_inspectFirst (fun heap v => heap.get? v (.str key))
      (fun heap v => heap.get?_bare v (.str key) trivial) args
  | assign name => exact follows_assignFirst name args
  | call name => exact follows_callVariable hc name args
  | apply =>
    obtain ⟨positional, keywords⟩ := args
    cases positional with
    | nil => exact Run.follows_pure _
    | cons f rest => exact follows_callValue hc f { positional := rest, keywords }
  | bind => exact follows_bindFirst args
  | andThen first second ih₁ ih₂ => exact Run.follows_bind (ih₁ args) fun _ => ih₂ args
  | pipe first second ih₁ ih₂ => exact Run.follows_bind (ih₁ args) fun v => ih₂ (args.prepend v)
  | recover first second ih₁ ih₂ =>
    refine Run.follows_bind (Run.follows_catchError (ih₁ args)) fun result => ?_
    cases result with
    | ok v => exact Run.follows_pure _
    | error e => exact ih₂ args
  | branch test yes no ih₁ ih₂ ih₃ =>
    refine Run.follows_bind (ih₁ args) fun v => ?_
    simp only [Value.asBool_bare]
    split
    next => exact ih₂ args
    next => exact ih₃ args

end Bodies

/-! ## Calls -/

/-- Taking the interceptors off a function leaves what its calls do. -/
theorem follows_invokeBy {call : Calling} (hc : call.Transparent) (f : Callable)
    (args : Arguments) :
    Host.Follows Value.bare (invokeBy call f args) (invokeBy call f.bare args.bare) :=
  match f with
  | .native _ _ body => follows_runBody hc body args
  | .bound _ receiver target => follows_invokeBy hc target (args.prepend receiver)
  | .interceptor _ label paramNames store maxDepth target =>
    Run.follows_after (follows_invokeBy hc target args) fun _ hw =>
      recordCall_unseen hw label paramNames store maxDepth args

/-- Calls are transparent, however much fuel there is. -/
theorem follows_invoke (fuel : Nat) : (invoke fuel).Transparent := by
  induction fuel with
  | zero => exact follows_invokeBy fun _ _ => Run.follows_exhaust
  | succ fuel ih => exact follows_invokeBy ih

end CallSampler
