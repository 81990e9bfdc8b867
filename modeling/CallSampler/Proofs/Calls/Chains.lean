import CallSampler.Proofs.Calls.Layers
import Mathlib.Data.List.Forall2

/-!
# Chains of methods and interceptors

A callable may be made of a function of the host in any number of steps, each of which supplies a
receiver or wraps for a store (`Callable.chain`). A call of the whole runs down the chain: every
interceptor on the way meets the call once, outermost first, with the receivers supplied since in
front of the arguments (`Callable.meetings`), and then the body runs once, with all receivers in
front (`invokeBy_chain`, by induction on the steps). Where the captures complete, each of these
meetings ends with one recorded call (`Met`), and watching shows no others before the body runs.
-/

namespace CallSampler

/-! ## Chains -/

/-- A step that makes a callable of another. -/
inductive Link where
  /-- Supply the first argument. -/
  | bind (receiver : Value)
  /-- Record the calls in a store, under a name. -/
  | wrap (label : String) (store : Nat)

def Link.wraps : Link → Bool
  | .bind _ => false
  | .wrap _ _ => true

def Link.receiver? : Link → Option Value
  | .bind receiver => some receiver
  | .wrap _ _ => none

/-- The receivers that some steps supply, in the order in which they do. -/
def receivers (links : List (Link × World)) : List Value := links.filterMap (·.1.receiver?)

/-- The arguments of a call with some receivers in front. -/
def Arguments.behind (receivers : List Value) (args : Arguments) : Arguments :=
  { args with positional := receivers ++ args.positional }

/-- The call as an interceptor of a chain meets it. -/
structure Meeting where
  store : Nat
  label : String
  /-- The parameter names that the interceptor saw when it was made. -/
  paramNames : List String
  maxDepth : Nat
  args : Arguments

/-- Capture the arguments that are met and record them. -/
def Meeting.record (call : Calling) (m : Meeting) : Host Unit :=
  recordCall call m.label m.paramNames m.store m.maxDepth m.args

namespace Callable

/-- What a step makes of a callable in a world. -/
def link (f : Callable) (step : Link × World) : Callable :=
  match step.1 with
  | .bind receiver => (Heap.bind f (some receiver) step.2.heap).1
  | .wrap label store => (intercept label store f step.2).1

/-- What is made of a callable by steps one after the other, each in the world of its time. -/
def chain (f : Callable) (links : List (Link × World)) : Callable := links.foldl link f

/-- What an interceptor meets that is wrapped around a callable, if the step makes one. -/
def meeting? (f : Callable) (args : Arguments) : Link × World → Option Meeting
  | (.bind _, _) => none
  | (.wrap label store, w) =>
    some
      { store, label, args
        paramNames := f.parameters?.getD []
        maxDepth := ((w.stores[store]?).map Store.maxDepth).getD 0 }

/-- What the interceptors of a chain meet when the whole is called, outermost first. The receivers
that are supplied after an interceptor was made come to it in front of the arguments. -/
def meetings (args : Arguments) : Callable → List (Link × World) → List Meeting
  | _, [] => []
  | f, step :: rest =>
    meetings args (f.link step) rest ++ (f.meeting? (args.behind (receivers rest)) step).toList

end Callable

/-- One after the other, each meeting captures its arguments, which completes, and then records the
samples with one call, which is not one too many for the host. -/
inductive Met (call : Calling) : List Meeting → World → World → Prop
  | done (w : World) : Met call [] w w
  | next {m : Meeting} {rest : List Meeting} {samples : List Sample} {w w₁ w' : World}
      (captured : captureArguments (answerBy call) m.maxDepth m.args m.paramNames w =
        (.ok samples, w₁))
      (room : w₁.overflows m.store m.label = false)
      (others : Met call rest
        (w₁.onStore m.store (Store.apply m.label samples m.paramNames)) w') :
      Met call (m :: rest) w w'

/-! ## Names -/

namespace Callable

variable (f : Callable) (links : List (Link × World))

theorem chain_cons (step : Link × World) (rest : List (Link × World)) :
    f.chain (step :: rest) = (f.link step).chain rest := rfl

theorem signature_chain : (f.chain links).signature = f.signature := by
  induction links generalizing f with
  | nil => rfl
  | cons step rest ih =>
    rw [chain_cons, ih]
    obtain ⟨_ | _, w⟩ := step <;> rfl

/-- Each receiver drops a name. A callable that cannot tell its names does so as soon as it is
wrapped, and then there are none. -/
theorem parameters?_chain : (f.chain links).parameters? =
    match f.parameters? with
    | some names => some (names.drop (receivers links).length)
    | none => if links.any (·.1.wraps) then some [] else none := by
  induction links generalizing f with
  | nil => cases hf : f.parameters? <;> simp [chain, receivers, hf]
  | cons step rest ih =>
    rw [chain_cons, ih]
    obtain ⟨receiver | ⟨label, store⟩, w⟩ := step
    · have hlink : (f.link (.bind receiver, w)).parameters? =
          f.parameters?.map (List.drop 1) := rfl
      rw [hlink]
      cases f.parameters? with
      | none => rfl
      | some names => simp [receivers, Link.receiver?, Nat.add_comm]
    · have hlink : (f.link (.wrap label store, w)).parameters? =
          some (f.parameters?.getD []) := rfl
      rw [hlink]
      cases f.parameters? with
      | none => simp [Link.wraps]
      | some names => simp [receivers, Link.receiver?]

end Callable

/-! ## Meetings -/

section Meetings

variable (args : Arguments) (f : Callable) (links : List (Link × World))

theorem receivers_append (before after : List (Link × World)) :
    receivers (before ++ after) = receivers before ++ receivers after :=
  List.filterMap_append

theorem Arguments.behind_behind (outer inner : List Value) :
    (args.behind outer).behind inner = args.behind (inner ++ outer) := by
  simp only [behind, List.append_assoc]

namespace Callable

theorem length_meetings : (f.meetings args links).length = links.countP (·.1.wraps) := by
  induction links generalizing f with
  | nil => rfl
  | cons step rest ih =>
    rw [meetings, List.length_append, ih, List.countP_cons]
    obtain ⟨_ | _, w⟩ := step <;> rfl

/-- A call comes to the later steps first, and to the earlier ones with the receivers of the later
ones in front. -/
theorem meetings_append (before after : List (Link × World)) :
    f.meetings args (before ++ after) =
      (f.chain before).meetings args after ++
        f.meetings (args.behind (receivers after)) before := by
  induction before generalizing f with
  | nil => exact (List.append_nil _).symm
  | cons step rest ih =>
    rw [List.cons_append, meetings, meetings, ih, chain_cons, receivers_append,
      args.behind_behind, List.append_assoc]

/-- What the interceptor meets that some step makes, and how many meet the call before it. -/
theorem getElem?_meetings (before after : List (Link × World)) (label : String) (store : Nat)
    (made : World) :
    (f.meetings args (before ++ (.wrap label store, made) :: after))[
        after.countP (·.1.wraps)]? =
      (f.chain before).meeting? (args.behind (receivers after)) (.wrap label store, made) := by
  have hlength := length_meetings args (((f.chain before).link (.wrap label store, made))) after
  rw [meetings_append, meetings, List.append_assoc, ← hlength,
    List.getElem?_append_right (Nat.le_refl _), Nat.sub_self]
  rfl

end Callable

end Meetings

/-! ## Calls -/

section Calls

variable {σ : Type} {args : Arguments}

/-- A call that passes bound methods and interceptors by their rules passes a chain of them by the
meetings of the chain. -/
theorem call_chain {record : Meeting → Run σ CallError Unit}
    {invoke : Callable → Arguments → Run σ CallError Value}
    (hbound : ∀ serial receiver f args,
      invoke (.bound serial receiver f) args = invoke f (args.prepend receiver))
    (hwrapped : ∀ serial label paramNames store maxDepth f args,
      invoke (.interceptor serial label paramNames store maxDepth f) args = (do
        record { store, label, paramNames, maxDepth, args }
        invoke f args))
    (f : Callable) (links : List (Link × World)) :
    invoke (f.chain links) args = (do
      forM (f.meetings args links) record
      invoke f (args.behind (receivers links))) := by
  induction links generalizing f with
  | nil => rfl
  | cons step rest ih =>
    rw [Callable.chain_cons, ih, Callable.meetings, List.forM_append, bind_assoc]
    -- the last step that the call comes to is the first that was made
    congr 1
    funext _
    obtain ⟨receiver | ⟨label, store⟩, w⟩ := step
    · exact hbound _ receiver f _
    · simp only [Callable.meeting?, Option.toList_some, List.forM_cons, List.forM_nil,
        bind_assoc, pure_bind]
      exact hwrapped _ label _ store _ f _

variable {call : Calling} {f : Callable} {links : List (Link × World)}

/-- A call of a chain makes the meetings of the chain and then calls what is at its end, with all
receivers in front. -/
theorem invokeBy_chain (call : Calling) (f : Callable) (links : List (Link × World))
    (args : Arguments) :
    invokeBy call (f.chain links) args = (do
      forM (f.meetings args links) (Meeting.record call)
      invokeBy call f (args.behind (receivers links))) :=
  call_chain (fun _ _ _ _ => rfl) (fun _ _ _ _ _ _ _ => rfl) f links

/-- A meeting whose capture completes records one call. -/
theorem Met.forM_record {ms : List Meeting} {w w' : World} (h : Met call ms w w') :
    forM ms (Meeting.record call) w = (.ok (), w') := by
  induction h with
  | done w => rfl
  | next captured room _ ih =>
    simp only [List.forM_cons, Run.bind_apply, Meeting.record, recordCall, Run.catchPanic,
      captured, keepCall, Run.inspect, room, Bool.false_eq_true, if_false, Run.update]
    exact ih

/-! ## Watched calls -/

/-- An interception of the call that a meeting is of, whose capture returned. -/
def Meeting.Listed (m : Meeting) (c : Interception) : Prop :=
  c.store = m.store ∧ c.label = m.label ∧ c.paramNames = m.paramNames ∧
    c.maxDepth = m.maxDepth ∧ c.args = m.args ∧ ∃ samples, c.captured = .ok samples

namespace Watch

/-- What a watched call with some fuel calls through variables by. -/
def callee : Nat → Watch.Calling
  | 0 => fun _ _ => Run.exhaust
  | fuel + 1 => Watch.invoke fuel

theorem invoke_eq (fuel : Nat) :
    Watch.invoke fuel = Watch.invokeBy (Callable.callee fuel) (callee fuel) := by
  cases fuel <;> rfl

theorem watches_callee (P : Nat → Nat → Prop) (fuel : Nat) :
    CallsWatched P (callee fuel) (Callable.callee fuel) := by
  cases fuel with
  | zero => exact fun _ _ _ _ => watches_exhaust
  | succ fuel => exact watches_invoke fuel

def meet (call : CallSampler.Calling) (watched : Watch.Calling) (m : Meeting) : Watching Unit :=
  Watch.recordCall call watched m.label m.paramNames m.store m.maxDepth m.args

theorem invokeBy_chain (call : CallSampler.Calling) (watched : Watch.Calling) (f : Callable)
    (links : List (Link × World)) (args : Arguments) :
    Watch.invokeBy call watched (f.chain links) args = (do
      forM (f.meetings args links) (meet call watched)
      Watch.invokeBy call watched f (args.behind (receivers links))) :=
  call_chain (fun _ _ _ _ => rfl) (fun _ _ _ _ _ _ _ => rfl) f links

end Watch

variable {wcall : Watch.Calling}

/-- A meeting whose capture completes is listed as one interception, with whatever its capture
caused inside of it. -/
theorem Meeting.listed_of_captured {m : Meeting} {samples : List Sample} {w₁ : World} {s : Watched}
    (hc : CallsWatched (fun _ _ => True) wcall call)
    (h : captureArguments (answerBy call) m.maxDepth m.args m.paramNames s.world =
      (.ok samples, w₁)) (hroom : w₁.overflows m.store m.label = false) :
    ∃ c s', m.Listed c ∧ Watch.meet call wcall m s = (.ok (), s') ∧
      s'.world = w₁.onStore m.store (Store.apply m.label samples m.paramNames) ∧
      s'.ended = s.ended ++ [c] := by
  have hrule : ∀ store depth : Nat, (fun _ _ => True : Nat → Nat → Prop) store depth :=
    fun _ _ => trivial
  obtain ⟨herase, ⟨during, hduring⟩, -, -⟩ := watches_catchPanic (watches_captureArguments
    (watches_answerBy hc) m.maxDepth (m.args.obeys_of_forall hrule) m.paramNames) s.begin.2
    (s.world.heap.obeys_of_forall hrule)
  have hworld : s.begin.2.world = s.world := rfl
  rw [hworld, Run.catchPanic, h] at herase
  rcases hrun : Run.catchPanic (Watch.captureArguments (Watch.answerBy wcall) m.maxDepth m.args
    m.paramNames) s.begin.2 with ⟨outcome, s₁⟩
  rw [hrun] at herase hduring
  obtain ⟨rfl, rfl⟩ := Prod.mk.inj herase
  let c : Interception :=
    { store := m.store, label := m.label, paramNames := m.paramNames, maxDepth := m.maxDepth
      args := m.args, before := s.world, captured := .ok samples
      answer := answerBy call
      during := [] }
  have hsettle : c.settle s₁.world =
      (.ok (), s₁.world.onStore m.store (Store.apply m.label samples m.paramNames)) := by
    rw [Interception.settle_of_ok (c := c) rfl, keepCall_eq, World.onStore_keep, hroom]
    rfl
  refine ⟨{ c with during }, { s₁.close s.begin.1.1 c with world := c.after s₁.world },
    ⟨rfl, rfl, rfl, rfl, rfl, samples, rfl⟩, ?_, ?_, hduring.ended_close c⟩
  · rw [Watch.meet, watch_recordCall hrun]
    exact congrArg (·, _) (congrArg Prod.fst hsettle)
  · exact congrArg Prod.snd hsettle

/-- Watching meetings whose captures complete lists one interception for each, in their order. -/
theorem Met.watched (hc : CallsWatched (fun _ _ => True) wcall call) {ms : List Meeting}
    {w w' : World} (h : Met call ms w w') {s : Watched} (hs : s.world = w) :
    ∃ calls s', List.Forall₂ Meeting.Listed ms calls ∧
      forM ms (Watch.meet call wcall) s = (.ok (), s') ∧ s'.world = w' ∧
      s'.ended = s.ended ++ calls := by
  induction h generalizing s with
  | done w => exact ⟨[], s, .nil, rfl, hs, (List.append_nil _).symm⟩
  | next captured room _ ih =>
    rw [← hs] at captured
    obtain ⟨c, s₁, hlisted, hmeet, hworld, hended⟩ :=
      Meeting.listed_of_captured hc captured room
    obtain ⟨calls, s', hcalls, hrest, hworld', hended'⟩ := ih hworld
    refine ⟨c :: calls, s', .cons hlisted hcalls, ?_, hworld', ?_⟩
    · rw [List.forM_cons, Run.bind_apply, hmeet]
      exact hrest
    · rw [hended', hended, List.append_assoc]
      rfl

end Calls

/-! ## The whole chain -/

namespace Callable

/-- What is made of a function of the host by some steps, and what a call of it comes to, given what
its interceptors meet. -/
structure Composes (signature : Signature) (body : Body Value) (links : List (Link × World))
    (args : Arguments) (g : Callable) (met : List Meeting) : Prop where
  name : g.name = signature.name
  owner : g.owner = signature.owner
  /-- A name less for each receiver. What a function cannot tell is refused until the first step
  that wraps it, and empty from there on. -/
  parameters : g.parameters =
    match signature.parameters with
    | some names => .ok (names.drop (receivers links).length)
    | none =>
      if links.any (·.1.wraps) then .ok [] else .error { functionName := signature.name }
  /-- There is one meeting for each interceptor. -/
  length : met.length = links.countP (·.1.wraps)
  /-- The interceptors that were made later meet the call earlier. The receivers that were supplied
  later are in front of the arguments, and those that were supplied earlier have dropped a name. -/
  meeting : ∀ before label store made after,
    links = before ++ (.wrap label store, made) :: after →
    met[after.countP (·.1.wraps)]? = some
      { store, label, args := args.behind (receivers after)
        paramNames := (signature.parameters.map (·.drop (receivers before).length)).getD []
        maxDepth := ((made.stores[store]?).map Store.maxDepth).getD 0 }
  /-- The interceptors record what they meet, and then the body runs with all receivers in front;
  its outcome is that of the call. -/
  call : ∀ fuel, invoke fuel g args = do
    forM met (Meeting.record (callee fuel))
    runBody (callee fuel) body (args.behind (receivers links))
  /-- Where the captures complete and no count is full, each meeting ends with one recorded call
  before the body runs, and watching lists no other interceptions than these, each with what its
  capture caused. -/
  recorded : ∀ fuel w w', Met (callee fuel) met w w' →
    invoke fuel g args w = runBody (callee fuel) body (args.behind (receivers links)) w' ∧
    ∀ s : Watched, s.world = w → ∃ calls s', List.Forall₂ Meeting.Listed met calls ∧
      s'.world = w' ∧ s'.ended = s.ended ++ calls ∧
      Watch.invoke fuel g args s =
        Watch.runBody (Watch.callee fuel) body (args.behind (receivers links)) s'

/-- A function that is recorded, made a method of a number, recorded again, and made a method once
more. -/
def twiceBound : List (Link × World) :=
  [(.wrap "app.read" 0, callingBack), (.bind (.int 7), callingBack),
    (.wrap "app.Reader.read" 0, callingBack), (.bind (.bool true), callingBack)]

end Callable

end CallSampler
