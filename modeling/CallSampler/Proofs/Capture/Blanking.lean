import CallSampler.Call
import CallSampler.Proofs.Capture.Depths
import CallSampler.Proofs.Transparency.Follows

/-!
# What a description wrote before it refused

A description that refuses may have written some text before. Nothing shows it: a world in which
those texts are blank behaves the same, up to the blanks. For captures that is by what is inside of
the value, for any way of answering that does not look at such texts (`ignores_captureAt`); host
code never looks at a description, so no object of the model does (`ignores_answer`).
-/

namespace CallSampler

section Texts

variable {ε ε' α β : Type}

theorem mapError_bind (g : ε → ε') (x : Except ε α) (k : α → Except ε β) :
    (x >>= k).mapError g = x.mapError g >>= fun a => (k a).mapError g := by
  cases x <;> rfl

theorem mapError_mapM (g : ε → ε') (k : α → Except ε β) (items : List α) :
    (items.mapM k).mapError g = items.mapM fun a => (k a).mapError g := by
  induction items with
  | nil => rfl
  | cons a rest ih =>
    rw [List.mapM_cons, List.mapM_cons, mapError_bind, ← ih]
    congr 1
    funext b
    rw [mapError_bind]
    rfl

end Texts

/-! ## Blanking -/

/-- The description without what it writes before it refuses. -/
def Description.blank : Description → Description
  | .refuses _ => .refuses ""
  | d => d

def Object.blank (o : Object) : Object := { o with description := o.description.blank }

def Heap.blank (h : Heap) : Heap := { h with objects := h.objects.map Object.blank }

/-- The world in which no description writes anything before it refuses. -/
def World.blank (w : World) : World := { w with heap := w.heap.blank }

def RenderFault.blank : RenderFault → RenderFault
  | .refused _ => .refused ""
  | fault => fault

/-- One run does in the blanked world what another does in the world as it is. -/
abbrev Host.Ignores {α : Type} (x y : Host α) : Prop :=
  Run.Mirrors World.blank id x y

section Blank

theorem describe_blank (o : Object) : o.blank.describe = o.describe.mapError RenderFault.blank := by
  unfold Object.describe Object.blank
  cases o.description <;> rfl

theorem object?_blank (h : Heap) (cell : Nat) :
    h.blank.object? cell = (h.object? cell).map Object.blank := by
  simp only [Heap.object?, Heap.blank, Array.getElem?_map]

theorem render_object_blank (h : Heap) (levels : Nat) (quoted : Bool) (cell : Nat) :
    h.blank.render levels quoted (.object cell) =
      (h.render levels quoted (.object cell)).mapError RenderFault.blank := by
  rw [Heap.render, Heap.render, object?_blank]
  cases h.object? cell with
  | none => rfl
  | some o => exact describe_blank o

theorem render_blank (h : Heap) (levels : Nat) (quoted : Bool) (v : Value) :
    h.blank.render levels quoted v = (h.render levels quoted v).mapError RenderFault.blank := by
  induction levels generalizing quoted v with
  | zero =>
    cases v with
    | object cell => exact render_object_blank h _ quoted cell
    | _ => rfl
  | succ levels ih =>
    cases v with
    | object cell => exact render_object_blank h _ quoted cell
    | list cell =>
      rw [Heap.render, Heap.render, mapError_bind, mapError_mapM]
      simp only [← ih]
      rfl
    | tuple items =>
      rw [Heap.render, Heap.render, mapError_bind, mapError_mapM]
      simp only [← ih]
      rfl
    | dict cell =>
      rw [Heap.render, Heap.render, mapError_bind, mapError_mapM]
      simp only [mapError_bind, ← ih]
      rfl
    | _ => rfl

theorem keyText_blank (h : Heap) (key : Value) :
    h.blank.keyText key = (h.keyText key).mapError RenderFault.blank := by
  unfold Heap.keyText
  split
  next => rfl
  next => exact render_blank h _ _ _

theorem captureDescription_blank (o : Object) :
    captureDescription o.blank = captureDescription o := by
  unfold captureDescription
  rw [describe_blank]
  cases o.describe <;> rfl

theorem ignores_renderKey (key : Value) : Host.Ignores (renderKey key) (renderKey key) := by
  refine Run.follows_bind (f := Except.mapError RenderFault.blank)
    (Run.follows_inspect fun w => keyText_blank w.heap key) fun text => ?_
  cases text with
  | ok text => exact Run.follows_pure text
  | error fault => cases fault <;> exact Run.follows_panic _

theorem ignores_mapM {α β : Type} {k l : α → Host β} (hk : ∀ a, Host.Ignores (k a) (l a))
    (items : List α) : Host.Ignores (items.mapM k) (items.mapM l) := by
  have h := Run.follows_mapM hk items
  rwa [List.map_id_fun] at h

/-- What a value is captured as shows nothing of such texts if what is inside of it does not. -/
theorem ignores_captureNode {answer : Answering}
    (ha : ∀ o, Host.Ignores (answer o) (answer o.blank)) {inner inner' : Value → Host Json}
    (hi : ∀ v, Host.Ignores (inner v) (inner' v)) (v : Value) :
    Host.Ignores (captureNode answer inner v) (captureNode answer inner' v) := by
  cases v with
  | list cell =>
    refine Run.follows_bind (f := id) (Run.follows_inspect fun w => rfl) fun items => ?_
    exact Run.follows_bind (ignores_mapM hi items) fun images => Run.follows_pure _
  | tuple items =>
    exact Run.follows_bind (ignores_mapM hi items) fun images => Run.follows_pure _
  | dict cell =>
    refine Run.follows_bind (f := id) (Run.follows_inspect fun w => rfl) fun entries => ?_
    refine Run.follows_bind (ignores_mapM (fun e => ?_) _) fun images => Run.follows_pure _
    refine Run.follows_bind (ignores_renderKey e.1) fun key => ?_
    exact Run.follows_bind (hi e.2) fun image => Run.follows_pure (key, image)
  | object cell =>
    refine Run.follows_bind (f := Option.map Object.blank)
      (Run.follows_inspect fun w => object?_blank w.heap cell) fun o? => ?_
    cases o? with
    | none => exact Run.follows_pure _
    | some o =>
      dsimp only [Option.map_some]
      by_cases hc : o.callable
      · rw [if_pos hc, if_pos (show o.blank.callable from hc)]
        exact Run.follows_pure _
      · rw [if_neg hc, if_neg (show ¬o.blank.callable from hc)]
        refine Run.follows_bind (ha o) fun attributes? => ?_
        cases attributes? with
        | none =>
          simp only [id, captureDescription_blank]
          exact Run.follows_pure _
        | some attributes =>
          refine Run.follows_bind (ignores_mapM (fun a => ?_) _) fun images => Run.follows_pure _
          exact Run.follows_bind (hi a.2) fun image => Run.follows_pure (a.1, image)
  | _ => exact Run.follows_pure _

theorem ignores_captureLevels {answer : Answering}
    (ha : ∀ o, Host.Ignores (answer o) (answer o.blank)) (levels : Nat) (v : Value) :
    Host.Ignores (captureLevels answer levels v) (captureLevels answer levels v) := by
  induction levels generalizing v with
  | zero => exact Run.follows_pure _
  | succ levels ih => exact ignores_captureNode ha ih v

/-- A capture never shows what a description wrote before it refused. -/
theorem ignores_captureAt {answer : Answering}
    (ha : ∀ o, Host.Ignores (answer o) (answer o.blank)) (o : Overflow) (maxDepth depth : UInt64)
    (v : Value) :
    Host.Ignores (captureAt o answer maxDepth depth v) (captureAt o answer maxDepth depth v) := by
  have hall : ∀ v, Host.Ignores (captureAt o answer maxDepth depth v)
      (captureAt o answer maxDepth depth v) :=
    captureAt_relates (R := fun x y => ∀ v, Host.Ignores (x v) (y v))
      (fun _ => Run.follows_pure _) (fun _ => Run.follows_panic _) (fun _ => Run.follows_exhaust)
      (fun _ _ hi => ignores_captureNode ha hi) o maxDepth depth
  exact hall v

/-! ## Host code reads no description -/

variable {call : Calling}

/-- A change of the heap that neither reads nor makes objects. -/
theorem ignores_onHeap {α : Type} {p : Heap → α × Heap}
    (hp : ∀ h : Heap, p h.blank = ((p h).1, (p h).2.blank)) :
    Host.Ignores (Run.step (World.onHeap p)) (Run.step (World.onHeap p)) := by
  refine Run.follows_step (fun w _ => ⟨?_, trivial⟩) fun _ => id
  have hw : p w.blank.heap = ((p w.heap).1, (p w.heap).2.blank) := hp w.heap
  simp only [World.onHeap, hw]
  rfl

theorem ignores_update {g : World → World} (hg : ∀ w : World, g w.blank = (g w).blank) :
    Host.Ignores (Run.update g) (Run.update g) :=
  Run.follows_update (fun w _ => ⟨hg w, trivial⟩) fun _ => id

theorem ignores_callValue (hc : ∀ f args, Host.Ignores (call f args) (call f args)) (v : Value)
    (args : Arguments) : Host.Ignores (callValue call v args) (callValue call v args) := by
  cases v with
  | function f => exact hc f args
  | _ => exact Run.follows_fail _

theorem ignores_callVariable (hc : ∀ f args, Host.Ignores (call f args) (call f args))
    (name : String) (args : Arguments) :
    Host.Ignores (callVariable call name args) (callVariable call name args) := by
  refine Run.follows_bind (f := id) (Run.follows_inspect fun w => rfl) fun v? => ?_
  cases v? with
  | none => exact Run.follows_fail _
  | some v => exact ignores_callValue hc v args

theorem ignores_changeFirst {change : Value → Heap → Bool × Heap}
    (hchange : ∀ v (h : Heap), change v h.blank = ((change v h).1, (change v h).2.blank))
    (args : Arguments) : Host.Ignores (changeFirst change args) (changeFirst change args) := by
  unfold changeFirst
  cases args.positional with
  | nil => exact Run.follows_pure _
  | cons target rest =>
    exact Run.follows_bind (ignores_onHeap (hchange target)) fun _ => Run.follows_pure _

theorem ignores_bindFirst (args : Arguments) :
    Host.Ignores (bindFirst args) (bindFirst args) := by
  unfold bindFirst
  split
  next f _ =>
    refine Run.follows_bind (ignores_onHeap fun h => ?_) fun method => Run.follows_pure _
    cases args.positional[1]? <;> rfl
  next => exact Run.follows_fail _

theorem ignores_runBody (hc : ∀ f args, Host.Ignores (call f args) (call f args))
    (body : Body Value) (args : Arguments) :
    Host.Ignores (runBody call body args) (runBody call body args) := by
  induction body generalizing args with
  | collect => exact ignores_onHeap fun h => rfl
  | fail text => exact Run.follows_fail _
  | panic text => exact Run.follows_panic _
  | append item => exact ignores_changeFirst (fun v h => by cases v <;> rfl) args
  | insert key item => exact ignores_changeFirst (fun v h => by cases v <;> rfl) args
  | item index => exact Run.follows_inspect fun w => rfl
  | entry key => exact Run.follows_inspect fun w => rfl
  | assign name =>
    have hassign : Host.Ignores
        (Run.update fun w => { w with heap := w.heap.assign name (args.first.getD .none) })
        (Run.update fun w => { w with heap := w.heap.assign name (args.first.getD .none) }) :=
      ignores_update fun w => rfl
    exact Run.follows_bind hassign fun _ => Run.follows_pure _
  | call name => exact ignores_callVariable hc name args
  | apply =>
    unfold runBody
    cases args.positional with
    | nil => exact Run.follows_pure _
    | cons f rest => exact ignores_callValue hc f _
  | bind => exact ignores_bindFirst args
  | andThen first second ih₁ ih₂ => exact Run.follows_bind (ih₁ args) fun _ => ih₂ args
  | pipe first second ih₁ ih₂ => exact Run.follows_bind (ih₁ args) fun v => ih₂ (args.prepend v)
  | recover first second ih₁ ih₂ =>
    refine Run.follows_bind (Run.follows_catchError (ih₁ args)) fun result => ?_
    cases result with
    | ok v => exact Run.follows_pure _
    | error e => exact ih₂ args
  | branch test yes no ih₁ ih₂ ih₃ =>
    refine Run.follows_bind (ih₁ args) fun v => ?_
    dsimp only [id]
    split
    next => exact ih₂ args
    next => exact ih₃ args
  | _ => exact Run.follows_pure _

theorem ignores_answerBy (hc : ∀ f args, Host.Ignores (call f args) (call f args)) (o : Object) :
    Host.Ignores (answerBy call o) (answerBy call o.blank) := by
  have hattributes : o.blank.attributes = o.attributes := rfl
  unfold answerBy
  rw [hattributes]
  cases o.attributes with
  | absent => exact Run.follows_pure _
  | listed entries => exact Run.follows_pure _
  | panics payload => exact Run.follows_panic _
  | calls name arguments =>
    have hresult := Run.follows_catchError (ignores_callVariable hc name
      { positional := arguments.map Prod.snd, keywords := [] })
    refine Run.follows_bind hresult fun result => ?_
    cases result with
    | ok v => exact Run.follows_pure _
    | error e => exact Run.follows_pure _

theorem ignores_keepCall (store : Nat) (label : String) (samples : List Sample)
    (paramNames : List String) :
    Host.Ignores (keepCall store label samples paramNames)
      (keepCall store label samples paramNames) := by
  refine Run.follows_bind (f := id) (Run.follows_inspect fun w => rfl) fun full => ?_
  cases full with
  | true => exact Run.follows_bind (ignores_update fun w => rfl) fun _ => Run.follows_panic _
  | false => exact ignores_update fun w => rfl

theorem ignores_recordCall (hc : ∀ f args, Host.Ignores (call f args) (call f args))
    (label : String) (paramNames : List String) (store maxDepth : Nat) (args : Arguments) :
    Host.Ignores (recordCall call label paramNames store maxDepth args)
      (recordCall call label paramNames store maxDepth args) := by
  have hsample : ∀ v : Value × Nat, Host.Ignores (captureSample (answerBy call) maxDepth v)
      (captureSample (answerBy call) maxDepth v) := fun v =>
    Run.follows_bind (ignores_captureLevels (ignores_answerBy hc) _ v.1) fun image =>
      Run.follows_pure _
  have harguments : Host.Ignores (captureArguments (answerBy call) maxDepth args paramNames)
      (captureArguments (answerBy call) maxDepth args paramNames) :=
    Run.follows_bind (ignores_mapM hsample _) fun positional =>
      Run.follows_bind (ignores_mapM hsample _) fun keywords => Run.follows_pure _
  refine Run.follows_bind (Run.follows_catchPanic harguments) fun captured => ?_
  cases captured with
  | ok samples => exact ignores_keepCall store label samples paramNames
  | error payload => exact ignores_update fun w => rfl

theorem ignores_invokeBy (hc : ∀ f args, Host.Ignores (call f args) (call f args)) (f : Callable)
    (args : Arguments) : Host.Ignores (invokeBy call f args) (invokeBy call f args) :=
  match f with
  | .native _ _ body => ignores_runBody hc body args
  | .bound _ receiver target => ignores_invokeBy hc target (args.prepend receiver)
  | .interceptor _ label paramNames store maxDepth target =>
    Run.follows_bind (f := id) (ignores_recordCall hc label paramNames store maxDepth args) fun _ =>
      ignores_invokeBy hc target args

theorem ignores_invoke (fuel : Nat) (f : Callable) (args : Arguments) :
    Host.Ignores (invoke fuel f args) (invoke fuel f args) := by
  induction fuel generalizing f args with
  | zero => exact ignores_invokeBy (fun _ _ => Run.follows_exhaust) f args
  | succ fuel ih => exact ignores_invokeBy ih f args

/-- No object answers by what a description wrote before it refused. -/
theorem ignores_answer (fuel : Nat) (o : Object) :
    Host.Ignores (answer fuel o) (answer fuel o.blank) :=
  ignores_answerBy (ignores_invoke fuel) o

end Blank

end CallSampler
