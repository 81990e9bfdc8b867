import CallSampler.Proofs.Calls.Layers
import CallSampler.Proofs.Instrument.Deciding

/-!
# Wrapping again

A program can hold on to the functions that a module binds, make methods of them, bind names to what
it holds, and have the module evaluated by further instrumentors. No turn of this but an evaluation
adds to the layers of a function, and an evaluation adds one to what it wraps (`Single.perform`).
As it passes over interceptors, it leaves every binding with at most one layer for a store, by
induction on the turns, unless it wraps a method of a function that records (`Single.after`). Such a
method does not have the flag, and a call of it counts twice once it is wrapped (`counts_once`).
-/

namespace CallSampler

/-! ## What a module binds -/

namespace Session

variable {σ τ ι m fuel : Nat} {name : String} {f g : Callable} {args : Arguments} {s s' : Session}

/-- The function that a module binds to a name. -/
def function? (m : Nat) (name : String) (s : Session) : Option Callable :=
  match (s.modules[m]?).bind (·.get? name) with
  | some (.function f) => some f
  | _ => none

theorem function?_eq_some_iff : s.function? m name = some f ↔
    ∃ md, s.modules[m]? = some md ∧ md.get? name = some (.function f) := by
  unfold function?
  constructor
  · intro h
    split at h
    next g hbind =>
      cases h
      exact Option.bind_eq_some_iff.mp hbind
    next => cases h
  · rintro ⟨md, hmd, hget⟩
    rw [hmd, Option.bind_some, hget]

theorem function?_congr (h : s'.modules = s.modules) (m : Nat) (name : String) :
    s'.function? m name = s.function? m name := by
  rw [function?, h, function?]

theorem modules_callBinding (fuel m : Nat) (name : String) (args : Arguments) (s : Session) :
    (s.callBinding fuel m name args).2.modules = s.modules := by
  unfold callBinding
  split
  next => rfl
  next => split <;> rfl

/-- After an assignment that may be refused, a name has the new function or the old one. -/
theorem function?_rebound {name' : String} (h :
    (s.onModule m (Module.rebound name' (.function f))).function? m name = some g) :
    g = f ∨ s.function? m name = some g := by
  obtain ⟨md', hmd', hget⟩ := function?_eq_some_iff.mp h
  rw [onModule, Array.getElem?_modify, if_pos rfl] at hmd'
  obtain ⟨md, hmd, rfl⟩ := Option.map_eq_some_iff.mp hmd'
  have hold : md.get? name = some (.function g) → s.function? m name = some g :=
    fun hget => function?_eq_some_iff.mpr ⟨md, hmd, hget⟩
  by_cases hro : name' ∈ md.readOnly
  · simp only [Module.rebound, Module.assign, hro, if_true] at hget
    exact .inr (hold hget)
  · simp only [Module.rebound, Module.assign, hro, if_false, Module.get?_bindName] at hget
    split at hget
    next =>
      cases hget
      exact .inl rfl
    next => exact .inr (hold hget)

/-! ## What an evaluation does to it -/

/-- An evaluation puts an interceptor for a store around the function that a module binds to a
name. -/
def Wraps (σ ι m : Nat) (name : String) (f : Callable) (s : Session) : Prop :=
  s.function? m name = some f ∧ ∃ serial label paramNames maxDepth,
    (s.evaluate ι m).2.function? m name =
      some (.interceptor serial label paramNames σ maxDepth f)

theorem Wraps.layers (h : s.Wraps σ ι m name f)
    (hg : (s.evaluate ι m).2.function? m name = some g) (τ : Nat) :
    g.layers τ = f.layers τ + if σ = τ then 1 else 0 := by
  obtain ⟨-, serial, label, paramNames, maxDepth, hafter⟩ := h
  rw [hg] at hafter
  cases hafter
  rfl

/-- An evaluation leaves what a name is bound to, or wraps it and finds no flag on it. -/
theorem function?_evaluate (h : (s.evaluate ι m).2.function? m name = some g) :
    s.function? m name = some g ∨ ∃ σ f, s.Wraps σ ι m name f ∧ f.isInterceptor = false := by
  obtain ⟨md₁, hmd₁, hget⟩ := function?_eq_some_iff.mp h
  rcases evaluate_cases ι m s with
    heq | ⟨inst, md, md', made, notices, state, -, hmd, -, ⟨targets, htargets, hmd'⟩, heq⟩
  · rw [heq] at h
    exact .inl h
  · have hafter : (s.evaluate ι m).2.modules[m]? = some md' := by
      rw [heq, modules_remember, getElem?_rewire hmd]
    rw [hafter] at hmd₁
    cases hmd₁
    rcases hmd'.get?_cases name with hkept | ⟨f, serial, hmem, hwrapped⟩
    · exact .inl (function?_eq_some_iff.mpr ⟨md, hmd, hkept ▸ hget⟩)
    · have heligible := htargets (name, f) hmem
      exact .inr ⟨inst.store, f,
        ⟨function?_eq_some_iff.mpr ⟨md, hmd, heligible.bound⟩, serial, _, _, _,
          function?_eq_some_iff.mpr ⟨md₁, hafter, hwrapped⟩⟩, heligible.plain⟩

/-- What records and is wrapped nevertheless is a bound method. -/
theorem Wraps.isBound (h : s.Wraps σ ι m name f) (hf : 0 < f.layers τ) : f.isBound = true := by
  have hplain : f.isInterceptor = false := by
    obtain ⟨hbefore, serial, label, paramNames, maxDepth, hafter⟩ := h
    rcases function?_evaluate hafter with hkept | ⟨_, f', ⟨hbefore', -⟩, hplain⟩
    · rw [hbefore] at hkept
      have hlayers := congrArg (Callable.layers σ) (Option.some.inj hkept)
      simp [Callable.layers] at hlayers
    · rw [hbefore] at hbefore'
      exact Option.some.inj hbefore' ▸ hplain
  cases hbound : f.isBound with
  | true => rfl
  | false => rw [f.isInterceptor_iff.mpr ⟨hbound, τ, hf⟩] at hplain; cases hplain

/-! ## Calls through a module -/

theorem world_callBinding (h : s.function? m name = some f) :
    (s.callBinding fuel m name args).2.world = (invoke fuel f args s.world).2 := by
  obtain ⟨md, hmd, hget⟩ := function?_eq_some_iff.mp h
  simp only [callBinding, hmd, hget]
  rfl

/-- One call through any binding of a module counts at most once in a store. -/
def CountsOnce (σ m : Nat) (s : Session) : Prop :=
  ∀ fuel name f args, s.function? m name = some f → f.Undisturbed fuel args s.world →
    (s.callBinding fuel m name args).2.world.calls σ ≤ s.world.calls σ + 1

/-- An evaluation wraps a method of a function that records to the store already. -/
def Rewraps (σ ι m : Nat) (name : String) (s : Session) : Prop :=
  ∃ f, s.Wraps σ ι m name f ∧ f.isBound = true ∧ 0 < f.layers σ

end Session

/-! ## Turns -/

/-- A program at work on a module, with the functions that it holds. -/
structure Workbench where
  held : List Callable
  session : Session

inductive Turn where
  /-- Offer the module to an instrumentor. -/
  | evaluate (ι : Nat)
  /-- Hold on to the function that the module binds to a name. -/
  | take (name : String)
  /-- Hold on to what a held function gives as a method: itself without an instance, and otherwise a
  bound method. -/
  | bind (k : Nat) (instance? : Option Value)
  /-- Assign a held function to a name, unless the name is read-only. -/
  | rebind (name : String) (k : Nat)
  /-- Call what the module binds to a name. -/
  | call (fuel : Nat) (name : String) (args : Arguments)

namespace Workbench

variable {σ m : Nat} {b : Workbench}

def take (m : Nat) (name : String) (b : Workbench) : Workbench :=
  { b with held := b.held ++ (b.session.function? m name).toList }

def bind (k : Nat) (instance? : Option Value) (b : Workbench) : Workbench :=
  match b.held[k]? with
  | some f =>
    let (method, session) := b.session.onWorld (World.onHeap (Heap.bind f instance?))
    { held := b.held ++ [method], session }
  | none => b

def rebind (m : Nat) (name : String) (k : Nat) (b : Workbench) : Workbench :=
  match b.held[k]? with
  | some f => { b with session := b.session.onModule m (Module.rebound name (.function f)) }
  | none => b

end Workbench

def Turn.perform (m : Nat) : Turn → Workbench → Workbench
  | .evaluate ι, b => { b with session := (b.session.evaluate ι m).2 }
  | .take name, b => b.take m name
  | .bind k instance?, b => b.bind k instance?
  | .rebind name k, b => b.rebind m name k
  | .call fuel name args, b => { b with session := (b.session.callBinding fuel m name args).2 }

namespace Workbench

variable {σ m : Nat} {b : Workbench}

/-- The workbench after some turns. -/
def after (m : Nat) (turns : List Turn) (b : Workbench) : Workbench :=
  turns.foldl (fun b turn => turn.perform m b) b

/-- No function that is held or bound has more than one layer for a store. -/
structure Single (σ m : Nat) (b : Workbench) : Prop where
  held : ∀ f ∈ b.held, f.layers σ ≤ 1
  bound : ∀ name f, b.session.function? m name = some f → f.layers σ ≤ 1

theorem Single.take (h : b.Single σ m) (name : String) : (b.take m name).Single σ m := by
  refine ⟨fun f hf => ?_, h.bound⟩
  rcases List.mem_append.mp hf with hf | hf
  · exact h.held f hf
  · exact h.bound name f (Option.mem_toList.mp hf)

/-- A method has the layers of its function. -/
theorem Single.bind (h : b.Single σ m) (k : Nat) (instance? : Option Value) :
    (b.bind k instance?).Single σ m := by
  unfold Workbench.bind
  cases hk : b.held[k]? with
  | none => exact h
  | some f =>
    have hf : f.layers σ ≤ 1 := h.held f (List.mem_of_getElem? hk)
    have hmethod : (Heap.bind f instance? b.session.world.heap).1.layers σ ≤ 1 := by
      cases instance? <;> exact hf
    refine ⟨fun g hg => ?_, h.bound⟩
    rcases List.mem_append.mp hg with hg | hg
    · exact h.held g hg
    · obtain rfl := List.mem_singleton.mp hg
      exact hmethod

theorem Single.rebind (h : b.Single σ m) (name : String) (k : Nat) :
    (b.rebind m name k).Single σ m := by
  unfold Workbench.rebind
  cases hk : b.held[k]? with
  | none => exact h
  | some f =>
    refine ⟨h.held, fun name' g hg => ?_⟩
    rcases Session.function?_rebound hg with rfl | hold
    · exact h.held g (List.mem_of_getElem? hk)
    · exact h.bound name' g hold

/-- An evaluation adds one layer to what it wraps, and what it wraps records only if it is a method,
as the flag keeps it from all else. -/
theorem Single.evaluate (h : b.Single σ m) {ι : Nat}
    (hnone : ∀ name, ¬ b.session.Rewraps σ ι m name) :
    ({ b with session := (b.session.evaluate ι m).2 } : Workbench).Single σ m := by
  refine ⟨h.held, fun name g hg => ?_⟩
  rcases Session.function?_evaluate hg with hkept | ⟨τ, f, hwraps, -⟩
  · exact h.bound name g hkept
  · have hlayers := hwraps.layers hg σ
    have hf := h.bound name f hwraps.1
    split at hlayers
    next hτ =>
      subst hτ
      have hzero : ¬ 0 < f.layers τ := fun hpos =>
        hnone name ⟨f, hwraps, hwraps.isBound hpos, hpos⟩
      omega
    next => omega

/-- Functions stay single in every turn that does not wrap a method of one that records. -/
theorem Single.perform (h : b.Single σ m) {turn : Turn}
    (hturn : ∀ ι name, turn = .evaluate ι → ¬ b.session.Rewraps σ ι m name) :
    (turn.perform m b).Single σ m := by
  cases turn with
  | evaluate ι => exact h.evaluate fun name => hturn ι name rfl
  | take name => exact h.take name
  | bind k instance? => exact h.bind k instance?
  | rebind name k => exact h.rebind name k
  | call fuel name args =>
    have hsame := Session.modules_callBinding fuel m name args b.session
    exact ⟨h.held, fun name' f hf =>
      h.bound name' f ((Session.function?_congr hsame m name').symm.trans hf)⟩

theorem Single.after (h : b.Single σ m) {turns : List Turn}
    (hturns : ∀ earlier ι later name, turns = earlier ++ .evaluate ι :: later →
      ¬ (b.after m earlier).session.Rewraps σ ι m name) :
    (b.after m turns).Single σ m := by
  induction turns generalizing b with
  | nil => exact h
  | cons turn rest ih =>
    have hfirst : (turn.perform m b).Single σ m := h.perform fun ι name hturn =>
      hturns [] ι rest name (by rw [hturn, List.nil_append])
    exact ih hfirst fun earlier ι later name hsplit =>
      hturns (turn :: earlier) ι later name (by rw [hsplit, List.cons_append])

/-- Calls count once unless an evaluation wraps a method of a function that records.

Of a callable whose body calls nothing, called with arguments that capture cleanly while no count
gets full, the flag tells exactly whether the call counts in some store, save that no bound method
has the flag. Where the functions of a module have at most one layer for a store, a program may hold
on to them, make methods of them, bind names to what it holds, call, and have the module evaluated
by any instrumentors, in any order: as long as no evaluation wraps a method of a function that
records to the store, one call through any binding counts there at most once. After one that does, a
call through the binding that was wrapped counts at least twice, again while no count gets full. -/
theorem counts_once (h : b.Single σ m) (turns : List Turn) :
    (∀ fuel (f : Callable) args w, f.Undisturbed fuel args w → f.HasRoom w →
      (f.isInterceptor = true ↔
        f.isBound = false ∧ ∃ τ, w.calls τ < (invoke fuel f args w).2.calls τ)) ∧
    ((∀ earlier ι later name, turns = earlier ++ .evaluate ι :: later →
        ¬ (b.after m earlier).session.Rewraps σ ι m name) →
      (b.after m turns).session.CountsOnce σ m) ∧
    (∀ (s : Session) ι name, s.Rewraps σ ι m name →
      let s' := (s.evaluate ι m).2
      ∀ fuel f args, s'.function? m name = some f → f.Undisturbed fuel args s'.world →
        f.HasRoom s'.world →
        s'.world.calls σ + 2 ≤ (s'.callBinding fuel m name args).2.world.calls σ) := by
  refine ⟨fun fuel f args w hf hroom => hf.isInterceptor_iff_records hroom,
    fun hturns fuel name f args hbound hf => ?_, ?_⟩
  · have hlayers := (h.after hturns).bound name f hbound
    have hle := hf.calls_invoke_le σ
    rw [Session.world_callBinding hbound]
    omega
  · rintro s ι name ⟨f, hwraps, -, hpos⟩ s' fuel g args hbound hg hroom
    have hlayers := hwraps.layers hbound σ
    rw [if_pos rfl] at hlayers
    rw [Session.world_callBinding hbound, hg.calls_invoke hroom]
    omega

end Workbench

/-- A module of one function. -/
def Module.lone : Module :=
  { name := "m"
    file := some { text := "/w/m.py" }
    bindings := [("f", .function (.native 0
      { name := "f", owner := some "m", parameters := some ["x"] } .nothing))]
    ascending := List.pairwise_singleton _ _
    readOnly := [] }

/-- A session with that module, a store and two instrumentors that record to it. -/
def Session.withLone : Session :=
  let start := Session.empty (Disk.empty [])
  { start with
    world := { World.empty with stores := #[Store.fresh { text := "/c" } 50 10] }
    modules := #[Module.lone]
    instrumentors := #[Instrumentor.blank, Instrumentor.blank] }

namespace Workbench

/-- A program that holds nothing yet of that module. -/
def withLone : Workbench := { held := [], session := .withLone }

/-- The function of the module is wrapped, and then a method of it takes its place. -/
def methodTurns : List Turn := [.evaluate 0, .take "f", .bind 0 (some (.int 1)), .rebind "f" 1]

def withMethod : Session := (withLone.after 0 methodTurns).session

theorem layers_withLone {name : String} {f : Callable}
    (h : withLone.session.function? 0 name = some f) : f.layers 0 = 0 := by
  obtain ⟨md, hmd, hget⟩ := Session.function?_eq_some_iff.mp h
  obtain rfl : Module.lone = md := Option.some.inj hmd
  have hmem : (name, Value.function f) ∈ Module.lone.bindings := Entries.mem_of_find? hget
  cases List.mem_singleton.mp hmem
  rfl

theorem rewraps_withMethod : withMethod.Rewraps 0 1 0 "f" :=
  ⟨_, ⟨rfl, _, _, _, _, rfl⟩, rfl, by decide⟩

/-- Without arguments there is only the receiver to capture. -/
theorem undisturbed_withMethod : ∃ f, (withMethod.evaluate 1 0).2.function? 0 "f" = some f ∧
    f.Undisturbed 0 default (withMethod.evaluate 1 0).2.world ∧
    f.HasRoom (withMethod.evaluate 1 0).2.world := by
  refine ⟨_, rfl, ⟨rfl, ⟨_, _, rfl, rfl, _, _, rfl, rfl, trivial⟩, ?_⟩, fun σ s hs name => ?_⟩
  · exact ⟨Nat.one_pos, Nat.one_pos, trivial⟩
  · cases σ with
    | zero =>
      cases hs
      exact (by decide : 2 < wordLimit)
    | succ σ => cases hs

theorem counts_once_withMethod :
    withMethod.CountsOnce 0 0 ∧ withMethod.Rewraps 0 1 0 "f" ∧
      (withMethod.evaluate 1 0).2.world.calls 0 + 2 ≤
        ((withMethod.evaluate 1 0).2.callBinding 0 0 "f" default).2.world.calls 0 := by
  have hsingle : withLone.Single 0 0 := by
    refine ⟨(fun f hf => nomatch hf), fun name f hf => ?_⟩
    rw [layers_withLone hf]
    exact Nat.zero_le 1
  obtain ⟨-, honce, htwice⟩ := counts_once hsingle methodTurns
  refine ⟨honce fun earlier ι later name hsplit => ?_, rewraps_withMethod, ?_⟩
  · cases earlier with
    | nil =>
      rintro ⟨f, hwraps, -, hpos⟩
      exact absurd (layers_withLone hwraps.1) (Nat.ne_of_gt hpos)
    | cons turn earlier =>
      have hrest : methodTurns.tail = earlier ++ .evaluate ι :: later := congrArg List.tail hsplit
      have hmem : Turn.evaluate ι ∈ methodTurns.tail := by simp [hrest]
      simp [methodTurns] at hmem
  · obtain ⟨f, hbound, hf, hroom⟩ := undisturbed_withMethod
    exact htwice withMethod 1 "f" rewraps_withMethod 0 f default hbound hf hroom

/-- The method records without the flag, and once it is wrapped each call of it counts twice. -/
theorem method_counts_twice :
    (∃ f, withMethod.function? 0 "f" = some f ∧ f.Undisturbed 0 default withMethod.world ∧
      f.isInterceptor = false ∧ withMethod.world.calls 0 = 0 ∧
      (invoke 0 f default withMethod.world).2.calls 0 = 1) ∧
    ¬ (withLone.after 0 (methodTurns ++ [.evaluate 1])).session.CountsOnce 0 0 := by
  constructor
  · have hstores : (0 : Nat) < 1 ∧ True := ⟨Nat.one_pos, trivial⟩
    exact ⟨_, rfl, ⟨rfl, ⟨_, _, rfl, rfl, trivial⟩, hstores⟩, rfl, by decide +kernel,
      by decide +kernel⟩
  · intro honce
    let wrapped : Session := (withMethod.evaluate 1 0).2
    have hlast : (withLone.after 0 (methodTurns ++ [.evaluate 1])).session = wrapped := by
      rw [after, List.foldl_append]
      rfl
    rw [hlast] at honce
    obtain ⟨f, hbound, hf, -⟩ := undisturbed_withMethod
    have hle : (wrapped.callBinding 0 0 "f" default).2.world.calls 0 ≤ wrapped.world.calls 0 + 1 :=
      honce 0 "f" f default hbound hf
    have hbefore : wrapped.world.calls 0 = 0 := by decide +kernel
    have hafter : (wrapped.callBinding 0 0 "f" default).2.world.calls 0 = 2 := by decide +kernel
    omega

end Workbench

end CallSampler
