import CallSampler.Proofs.Session.Recording
import CallSampler.Proofs.Transparency.Imports

/-!
# Instrumentation is transparent

A host program imports modules, calls their functions and what its variables hold, binds methods and
changes lists and dicts, and decides on each step by how the steps before it ended. If no step, no
module and no decision tells a function from an interceptor around it, then the program runs on an
instrumented session as it does on the plain one: each step ends the same and leaves the same host
values, up to the interceptors (`Program.run_install`). One step is transparent by what was shown of
imports and calls (`Step.followsAt_run`), and the run is by induction on the program. A host that
checks its sums needs room in its counts for that (`Program.HasRoom`); any other has it
(`Program.hasRoom_of_wraps`).
-/

namespace CallSampler

/-! ## Steps -/

structure Inputs.Tame (inputs : Inputs) : Prop where
  positional : Literal.TameItems inputs.positional
  keywords : Literal.TameNamed inputs.keywords

def Answer.bare : Answer → Answer
  | .module number => .module number
  | .value v => .value v.bare

/-- What the step builds is tame, and the key that it inserts is free of functions. -/
def Step.TameAt (s : Session) : Step → Prop
  | .offer _ b => b.Tame
  | .offerLoader _ _ loader => loader.Tame
  | .import _ _ => True
  | .callBinding _ _ inputs => inputs.Tame
  | .callVariable _ inputs => inputs.Tame
  | .bind target receiver? => (Inputs.ofMethod target receiver?).Tame
  | .push target item => target.Tame ∧ item.Tame
  | .insert key target item =>
    key.Tame ∧ target.Tame ∧ item.Tame ∧ (key.build s.world.heap).1.FunctionFree
  | .fetch _ _ => True
  | .make l => l.Tame
  | .assign _ x => x.TameAt s

/-! ## Steps are transparent -/

theorem Inputs.builds_build {inputs : Inputs} (ht : inputs.Tame) :
    Builds Arguments.bare inputs.build inputs.build := by
  intro h
  obtain ⟨hitems, hquiet⟩ := Literal.builds_buildItems inputs.positional ht.positional h
  obtain ⟨hnamed, hquiet'⟩ := Literal.builds_buildNamed inputs.keywords ht.keywords
    (Literal.buildItems inputs.positional h).2
  refine ⟨?_, fun hh => hquiet' (hquiet hh)⟩
  unfold build
  rw [hitems]
  simp only [Prod.map, hnamed, bareNamed, Entries.ofAssignments_map_value, Arguments.bare]

namespace Session

variable {ε : Type}

theorem follows_onHeap {α β : Type} {f : α → β} {p : Heap → α × Heap} {q : Heap → β × Heap}
    (h : Builds f p q) :
    Action.Follows f (onHeap p : Action ε α) (onHeap q : Action ε β) :=
  Run.follows_step (fun _ hs => builds_onWorld h hs) fun _ h => h

theorem follows_run {α β : Type} {f : α → β} {x : Host α} {y : Host β} (h : Host.Follows f x y) :
    Action.Follows f (run x) (run y) := by
  intro s hs
  obtain ⟨hy, hquiet, hfull⟩ := h s.world hs.world
  refine ⟨fun hroom => ?_, ⟨hquiet, hs.importers⟩, hfull⟩
  have hrun : s.bare.run y = ((y s.world.bare).1, { s.bare with world := (y s.world.bare).2 }) :=
    rfl
  rw [hrun, hy hroom]
  rfl

theorem follows_answering {α : Type} {h : α → α} {x y : Action ε α} {f : α → Answer}
    {g : ε → Trouble} (hx : Action.Follows h x y) (hf : ∀ a, f (h a) = (f a).bare) :
    Action.Follows Answer.bare (answering f g x) (answering f g y) := by
  refine Run.follows_outcome (p := fun o => (o.map f).mapError g)
    (q := fun o => (o.map f).mapError g) hx fun o => ?_
  cases o with
  | ok a => exact congrArg Outcome.ok (hf a)
  | _ => rfl

theorem follows_callBinding (fuel m : Nat) (name : String) (args : Arguments) :
    Action.Follows Value.bare (callBinding fuel m name args)
      (callBinding fuel m name args.bare) := by
  intro s hs
  have hmodule := modules_bare m s
  cases hm : s.modules[m]? with
  | none =>
    rw [hm, Option.map_none] at hmodule
    exact .still hs (by simp only [callBinding, hm]; rfl) (by simp only [callBinding, hmodule]; rfl)
  | some md =>
    rw [hm, Option.map_some] at hmodule
    have hbinding := md.get?_bare name
    cases hv : md.get? name with
    | none =>
      rw [hv, Option.map_none] at hbinding
      exact .still hs (by simp only [callBinding, hm, hv]; rfl)
        (by simp only [callBinding, hmodule, hbinding]; rfl)
    | some v =>
      rw [hv, Option.map_some] at hbinding
      exact (follows_run (follows_callValue (follows_invoke fuel) v args) s hs).congr
        (by simp only [callBinding, hm, hv]) (by simp only [callBinding, hmodule, hbinding])

theorem fetch_bare (m : Nat) (name : String) (s : Session) :
    s.bare.fetch m name = (s.fetch m name).bare := by
  unfold fetch
  rw [modules_bare]
  cases s.modules[m]? with
  | none => rfl
  | some md =>
    simp only [Option.map_some, Option.bind_some, Module.get?_bare]
    cases md.get? name <;> rfl

theorem assign_bare (variableName : String) (a : Answer) (s : Session) :
    s.bare.assign variableName a.bare = (s.assign variableName a).bare := by
  cases a with
  | module number => rfl
  | value v =>
    simp only [assign, Answer.bare, bare, World.bare, Heap.assign_bare]

theorem full_assign {s : Session} (hs : s.world.Full) (variableName : String) (a : Answer) :
    (s.assign variableName a).world.Full := by
  cases a <;> exact hs

theorem Quiet.assign {s : Session} (hs : s.Quiet) (variableName : String) (a : Answer) :
    (s.assign variableName a).Quiet := by
  cases a with
  | module number => exact hs
  | value v => exact ⟨hs.world, hs.importers⟩

end Session

namespace Step

theorem functionFree_build_bare {key : Literal} (ht : key.Tame) (h : Heap) :
    (key.build h.bare).1.FunctionFree ↔ (key.build h).1.FunctionFree := by
  rw [(Literal.builds_build key ht h).1]
  exact Value.functionFree_bare _

theorem TameAt.of_bare {s : Session} {x : Step} (h : x.TameAt s.bare) : x.TameAt s := by
  induction x with
  | insert key target item =>
    obtain ⟨hkey, htarget, hitem, hfree⟩ := h
    exact ⟨hkey, htarget, hitem, (functionFree_build_bare hkey s.world.heap).mp hfree⟩
  | assign name x ih => exact ih h
  | _ => exact h

theorem builds_push (target item : Value) :
    Builds id (Heap.push target item) (Heap.push target.bare item.bare) :=
  builds_of_objects (fun h => h.push_bare target item) (objects_push target item)

theorem builds_insert {key : Value} (hk : key.FunctionFree) (target item : Value) :
    Builds id (Heap.insert target key item) (Heap.insert target.bare key.bare item.bare) :=
  builds_of_objects (fun h => h.insert_bare target key item hk) (objects_insert target key item)

/-- A step on the session without instrumentation ends as the step on the session does. -/
theorem followsAt_run {x : Step} (fuel : Nat) {s : Session} (hs : s.Quiet) (hx : x.TameAt s) :
    Run.FollowsAt Session.bare Session.Quiet (fun s => s.world.Full) Answer.bare (x.run fuel)
      (x.run fuel) s := by
  have hvalue : ∀ v : Value, Action.Follows Answer.bare
      (pure (.value v) : Action Trouble Answer) (pure (.value v.bare)) :=
    fun v => Run.follows_pure (Answer.value v)
  induction x with
  | offer i b =>
    refine Run.follows_bind (Session.follows_onHeap (Blueprint.builds_build hx)) (fun m => ?_) s hs
    refine Run.follows_bind (f := id) ?_ fun _ => hvalue .none
    exact Run.follows_update (fun s hs => ⟨Session.bare_register i m s, hs.register i m⟩)
      fun _ h => h
  | offerLoader i name loader =>
    have hregister : Action.Follows id
        (Run.update (Session.registerLoader i name loader) : Action Trouble Unit)
        (Run.update (Session.registerLoader i name loader)) :=
      Run.follows_update (fun s hs =>
        ⟨Session.bare_registerLoader i name loader s, hs.setSource i name hx⟩) fun _ h => h
    exact Run.follows_bind hregister (fun _ => hvalue .none) s hs
  | «import» i name =>
    exact Session.follows_answering (Session.follows_importModule i name) (fun _ => rfl) s hs
  | callBinding m name inputs =>
    refine Run.follows_bind (Session.follows_onHeap (Inputs.builds_build hx)) (fun args => ?_) s hs
    exact Session.follows_answering (Session.follows_callBinding fuel m name args) fun _ => rfl
  | callVariable name inputs =>
    refine Run.follows_bind (Session.follows_onHeap (Inputs.builds_build hx)) (fun args => ?_) s hs
    exact Session.follows_answering
      (Session.follows_run (CallSampler.follows_callVariable (follows_invoke fuel) name args))
      fun _ => rfl
  | bind target receiver? =>
    refine Run.follows_bind (Session.follows_onHeap (Inputs.builds_build hx)) (fun args => ?_) s hs
    exact Session.follows_answering (Session.follows_run (follows_bindFirst args)) fun _ => rfl
  | push target item =>
    refine Run.follows_bind (Session.follows_onHeap (Literal.builds_build target hx.1))
      (fun target => ?_) s hs
    refine Run.follows_bind (Session.follows_onHeap (Literal.builds_build item hx.2)) fun item => ?_
    exact Run.follows_bind (Session.follows_onHeap (builds_push target item)) fun _ => hvalue _
  | insert key target item =>
    obtain ⟨hkey, htarget, hitem, hfree⟩ := hx
    -- The key is known at this session only, so the sequence is taken apart here.
    have hbuild : Action.Follows Value.bare (Session.onHeap key.build : Action Trouble Value)
        (Session.onHeap key.build) := Session.follows_onHeap (Literal.builds_build key hkey)
    have hbuilt := hbuild s hs
    refine hbuilt.bind fun k hk => ?_
    have hk : k.FunctionFree := by
      cases hk
      exact hfree
    refine Run.follows_bind (Session.follows_onHeap (Literal.builds_build target htarget))
      (fun target => ?_) _ hbuilt.good
    refine Run.follows_bind (Session.follows_onHeap (Literal.builds_build item hitem))
      fun item => ?_
    exact Run.follows_bind (Session.follows_onHeap (builds_insert hk target item)) fun _ => hvalue _
  | fetch m name =>
    exact Run.follows_bind (Run.follows_inspect (Session.fetch_bare m name)) hvalue s hs
  | make l =>
    exact Run.follows_bind (Session.follows_onHeap (Literal.builds_build l hx)) hvalue s hs
  | assign name x ih =>
    have hdone := ih hx
    refine hdone.bind fun a _ => ?_
    refine Run.follows_bind (f := id) ?_ (fun _ => Run.follows_pure a) _ hdone.good
    exact Run.follows_update (fun s hs => ⟨Session.assign_bare name a s, hs.assign name a⟩)
      fun _ hfull => by exact Session.full_assign hfull name a

end Step

/-! ## Programs -/

/-- A host program. How it goes on may depend on how a step ended and on the session then. -/
inductive Program where
  | done
  | step (first : Step) (next : Outcome Trouble Answer → Session → Program)

/-- How the steps of a program ended, in their order, and the session at the end. -/
@[ext]
structure Transcript where
  outcomes : List (Outcome Trouble Answer)
  final : Session

/-- The payloads of the steps that panicked. -/
def Transcript.panics (t : Transcript) : List Payload :=
  t.outcomes.filterMap fun outcome => match outcome with
    | .panic payload => some payload
    | _ => none

def Transcript.bare (t : Transcript) : Transcript where
  outcomes := t.outcomes.map (Outcome.map Answer.bare)
  final := t.final.bare

namespace Program

/-- Run a program, with fuel for the calls in each step. -/
def run (fuel : Nat) : Program → Session → Transcript
  | .done, s => { outcomes := [], final := s }
  | .step first next, s =>
    let (outcome, s) := first.run fuel s
    let rest := (next outcome s).run fuel s
    { rest with outcomes := outcome :: rest.outcomes }

/-- The program never tells a function from an interceptor around it: it goes on as if there were
none. -/
def Blind : Program → Prop
  | .done => True
  | .step _ next => ∀ outcome s,
    next outcome s = next (outcome.map Answer.bare) s.bare ∧ (next outcome s).Blind

/-- Every step of the run from a session is tame. -/
def TameFrom (fuel : Nat) : Program → Session → Prop
  | .done, _ => True
  | .step first next, s =>
    first.TameAt s ∧
      (next (first.run fuel s).1 (first.run fuel s).2).TameFrom fuel (first.run fuel s).2

variable {p : Program} {fuel : Nat} {s : Session}

/-- A run does nothing to the stores but record calls in them. -/
theorem recorded_run (fuel : Nat) (p : Program) (s : Session) :
    ∃ calls, Session.Recorded (fun _ _ => True) s (p.run fuel s).final calls := by
  have hrule : ∀ store depth : Nat, (fun _ _ => True : Nat → Nat → Prop) store depth :=
    fun _ _ => trivial
  induction p generalizing s with
  | done => exact ⟨[], (Session.obeys_of_forall hrule s).refl⟩
  | step first next ih =>
    obtain ⟨hfirst, -⟩ := first.records_run fuel s (Session.obeys_of_forall hrule s)
    obtain ⟨calls, hrest⟩ := ih (first.run fuel s).1 (first.run fuel s).2 (first.run fuel s).2
    exact ⟨_, hfirst.trans hrest⟩

/-- At the end of the run no count is full, if the host is one that would panic over it. -/
def HasRoom (fuel : Nat) (p : Program) (s : Session) : Prop := ¬ (p.run fuel s).final.world.Full

/-- A host whose counts start again at zero never panics over them. -/
theorem hasRoom_of_wraps (h : s.world.overflow = .wraps) : p.HasRoom fuel s := by
  obtain ⟨calls, hrecorded⟩ := p.recorded_run fuel s
  rintro ⟨hpanics, -⟩
  rw [hrecorded.world.overflow, h] at hpanics
  cases hpanics

/-- If there is room at the end, there was after each step. -/
theorem HasRoom.step {first : Step} {next : Outcome Trouble Answer → Session → Program}
    (h : (Program.step first next).HasRoom fuel s) : ¬ (first.run fuel s).2.world.Full ∧
      (next (first.run fuel s).1 (first.run fuel s).2).HasRoom fuel (first.run fuel s).2 := by
  obtain ⟨calls, hrest⟩ := (next (first.run fuel s).1 (first.run fuel s).2).recorded_run fuel
    (first.run fuel s).2
  exact ⟨fun hfull => h (hrest.world.full hfull), h⟩

/-- The run on the session without instrumentation is the run on the session, less the
interceptors. -/
theorem run_bare (hs : s.Quiet) (hb : p.Blind) (ht : p.TameFrom fuel s.bare)
    (hroom : p.HasRoom fuel s) : p.run fuel s.bare = (p.run fuel s).bare := by
  induction p generalizing s with
  | done => rfl
  | step first next ih =>
    obtain ⟨hfirst, hnext⟩ := ht
    obtain ⟨hfirstroom, hnextroom⟩ := hroom.step
    obtain ⟨hrun, hgood, -⟩ := Step.followsAt_run fuel hs hfirst.of_bare
    obtain ⟨hblind, hb⟩ := hb (first.run fuel s).1 (first.run fuel s).2
    rw [hrun hfirstroom, ← hblind] at hnext
    have hrest := ih _ _ hgood hb hnext hnextroom
    unfold run
    rw [hrun hfirstroom]
    dsimp only
    rw [← hblind, hrest]
    rfl

/-- Import a module and, if that succeeds, have its function append to a list. -/
def appendOnce : Program :=
  .step (.import 0 "m") fun outcome _ => match outcome with
    | .ok (.module m) =>
      .step (.callBinding m "add" { positional := [.list []], keywords := [] }) fun _ _ => .done
    | _ => .done

/-- A session with one importer, to which a module with one function is known. -/
def oneAdder : Session :=
  (Session.empty (Disk.empty [])).addImporter.2.registerLoader 0 "m" (.mk [] 0 "" (.build
    { name := "m", file := some { text := "/w/m" }, bindings := [], readOnly := []
      definitions := [{ name := "add", parameters := ["xs"], body := .append (.int 1) }] }))

theorem bare_oneAdder : oneAdder.bare = oneAdder := by
  have hnone : (Session.empty (Disk.empty [])).addImporter.2.bare =
      (Session.empty (Disk.empty [])).addImporter.2 := by
    simp only [Session.bare, Session.addImporter, Session.empty, World.bare, World.empty, Heap.bare,
      Heap.empty, List.push_toArray, List.map_toArray, bareNamed]
    rfl
  rw [oneAdder, ← Session.bare_registerLoader, hnone]

theorem quiet_oneAdder : oneAdder.Quiet := by
  have hnone : (Session.empty (Disk.empty [])).addImporter.2.Quiet := by
    refine ⟨fun o ho => ?_, fun imp himp => ?_⟩
    · simp [Session.addImporter, Session.empty, World.empty, Heap.empty] at ho
    · have himp : imp = default := by simpa [Session.addImporter, Session.empty] using himp
      rw [himp]
      intro e he
      cases he
  exact hnone.setSource 0 "m" ⟨trivial, by simp [Literal.TameBody, Literal.Tame], by simp⟩

theorem blind_appendOnce : appendOnce.Blind := by
  intro outcome s
  cases outcome with
  | ok a => cases a <;> exact ⟨rfl, by simp [Blind]⟩
  | _ => exact ⟨rfl, trivial⟩

/-- The same session on a host that checks its sums, with a file in which the count of the function
is full. -/
def fullAdder : Session :=
  { oneAdder with
    world := { oneAdder.world with overflow := .panics }
    disk := oneAdder.disk.plant { text := "/c" }
      (.text "\x7b\"m.add\": \x7b\"callCount\": 18446744073709551615\x7d\x7d") }

/-- Without room the context shows: the call panics with it, and returns without. -/
theorem run_install_fullAdder :
    (appendOnce.run 1 fullAdder).panics = [] ∧
      (appendOnce.run 1
        (fullAdder.install 0 (.ofPaths { text := "/c" } { text := "/w" })).2).panics =
          [.text Overflow.message] := by
  decide +kernel

end Program

end CallSampler
