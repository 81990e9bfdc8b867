import CallSampler.Proofs.Calls.Counting

/-!
# Layers of recording

Below a callable stands a chain of bound methods and interceptors, with a function of the host at
its end. Every interceptor of the chain meets the call and counts it, so that a call counts in a
store as often as the chain has interceptors for it, or less often if a count is full on the way
(`calls_invokeBy`, by induction on the chain). The flag of a callable tells about the first link
only: it is right about a function of the host and about an interceptor, and never tells that a
bound method records (`isInterceptor_iff_records`).
-/

namespace CallSampler

/-! ## Sums of call counts -/

namespace Store

/-- The sum of the call counts of all functions. -/
def totalCalls (s : Store) : Nat := (s.entries.map fun e => e.2.callCount.toNat).foldr (· + ·) 0

/-- The sum goes with the count of the function whose record is changed. -/
theorem totalCalls_change (name : String) (paramNames : List String) (f : Record → Record)
    (s : Store) : (s.change name paramNames f).totalCalls + s.callCount name =
      s.totalCalls + (s.change name paramNames f).callCount name := by
  unfold callCount
  rw [get?_change, if_pos rfl]
  exact Entries.sum_set (fun r : Record => r.callCount.toNat) name _ s.entries

variable (o : Overflow) (label : String) (samples : List Sample) (paramNames : List String)
  (s : Store)

theorem totalCalls_keep : (s.keep o label samples paramNames).totalCalls + s.callCount label =
    s.totalCalls + o.count (s.callCount label + 1) := by
  have hcount := s.callCount_keep o label samples paramNames label
  rw [beq_self_eq_true, if_pos rfl] at hcount
  rw [← hcount]
  unfold keep
  split
  next => exact totalCalls_change label paramNames _ s
  next => exact totalCalls_change label paramNames _ s

theorem totalCalls_keep_le :
    (s.keep o label samples paramNames).totalCalls ≤ s.totalCalls + 1 := by
  have hsum := s.totalCalls_keep o label samples paramNames
  have hle := o.count_le (s.callCount label + 1)
  omega

variable {s label}

/-- A recorded call counts once if there is room for it. -/
theorem totalCalls_keep_of_room (h : s.callCount label + 1 < wordLimit) :
    (s.keep o label samples paramNames).totalCalls = s.totalCalls + 1 := by
  have hsum := s.totalCalls_keep o label samples paramNames
  rw [o.count_of_lt h] at hsum
  omega

end Store

namespace World

/-- The sum of the call counts in a store. -/
def calls (σ : Nat) (w : World) : Nat := ((w.stores[σ]?).map Store.totalCalls).getD 0

variable {w : World} {τ σ : Nat} {label : String}

theorem calls_onStore_of_ne (f : Store → Store) (h : τ ≠ σ) :
    (w.onStore τ f).calls σ = w.calls σ := by
  rw [calls, onStore, Array.getElem?_modify, if_neg h, calls]

theorem calls_onStore_self (f : Store → Store) :
    (w.onStore τ f).calls τ = ((w.stores[τ]?).map fun s => (f s).totalCalls).getD 0 := by
  rw [calls, onStore, Array.getElem?_modify, if_pos rfl, Option.map_map]
  rfl

theorem calls_onStore_keep_le (w : World) (τ σ : Nat) (label : String) (samples : List Sample)
    (paramNames : List String) :
    (w.onStore τ (Store.keep w.overflow label samples paramNames)).calls σ ≤
      w.calls σ + if τ = σ then 1 else 0 := by
  by_cases h : τ = σ
  · subst h
    rw [calls_onStore_self, if_pos rfl, calls]
    cases w.stores[τ]? with
    | none => exact Nat.zero_le _
    | some s => exact s.totalCalls_keep_le w.overflow label samples paramNames
  · rw [calls_onStore_of_ne _ h]
    exact Nat.le_add_right _ _

/-- In a store that has room a call counts once. -/
theorem calls_onStore_keep {s : Store} (hs : w.stores[τ]? = some s)
    (h : s.callCount label + 1 < wordLimit) (σ : Nat) (samples : List Sample)
    (paramNames : List String) :
    (w.onStore τ (Store.keep w.overflow label samples paramNames)).calls σ =
      w.calls σ + if τ = σ then 1 else 0 := by
  by_cases hσ : τ = σ
  · subst hσ
    rw [calls_onStore_self, if_pos rfl, calls, hs]
    exact Store.totalCalls_keep_of_room w.overflow samples paramNames h
  · rw [calls_onStore_of_ne _ hσ, if_neg hσ, Nat.add_zero]

end World

/-! ## Chains -/

/-- Whether a body calls nothing. -/
def Body.callsNothing {α : Type} : Body α → Bool
  | .call _ | .apply => false
  | .andThen first second | .pipe first second | .recover first second =>
    first.callsNothing && second.callsNothing
  | .branch test yes no => test.callsNothing && yes.callsNothing && no.callsNothing
  | _ => true

namespace Callable

/-- The body at the end of the chain. -/
def body : Callable → Body Value
  | .native _ _ body => body
  | .bound _ _ target => target.body
  | .interceptor _ _ _ _ _ target => target.body

/-- How many interceptors of the chain record to a store. -/
def layers (σ : Nat) : Callable → Nat
  | .native _ _ _ => 0
  | .bound _ _ target => target.layers σ
  | .interceptor _ _ _ store _ target => target.layers σ + if store = σ then 1 else 0

/-- The stores that the chain records to are among the first so many. -/
def RecordsBelow (n : Nat) : Callable → Prop
  | .native _ _ _ => True
  | .bound _ _ target => target.RecordsBelow n
  | .interceptor _ _ _ store _ target => store < n ∧ target.RecordsBelow n

/-- Whether the function is a method with its receiver supplied. -/
def isBound : Callable → Bool
  | .bound _ _ _ => true
  | _ => false

/-- Each capture on the way down the chain returns its samples and records nothing by itself. -/
def CapturesCleanly (call : Calling) : Callable → Arguments → World → Prop
  | .native _ _ _, _, _ => True
  | .bound _ receiver target, args, w => target.CapturesCleanly call (args.prepend receiver) w
  | .interceptor _ label paramNames store maxDepth target, args, w =>
    ∃ samples w₁, captureArguments (answerBy call) maxDepth args paramNames w = (.ok samples, w₁) ∧
      w₁.stores = w.stores ∧
      target.CapturesCleanly call args (w₁.onStore store (Store.apply label samples paramNames))

/-- What a call with some fuel calls through variables by. -/
def callee : Nat → Calling
  | 0 => fun _ _ => Run.exhaust
  | fuel + 1 => invoke fuel

/-- A call that does nothing to the stores but what the chain does: the body calls nothing, the
arguments capture cleanly, and the stores that the chain records to are there. -/
structure Undisturbed (fuel : Nat) (f : Callable) (args : Arguments) (w : World) : Prop where
  body : f.body.callsNothing = true
  captures : f.CapturesCleanly (callee fuel) args w
  stores : f.RecordsBelow w.stores.size

/-- No count gets full when the chain is called. -/
def HasRoom (f : Callable) (w : World) : Prop :=
  ∀ (σ : Nat) (s : Store), w.stores[σ]? = some s → ∀ name,
    s.callCount name + f.layers σ < wordLimit

end Callable

/-! ## Counting along a chain -/

section Chains

variable {call : Calling} {f : Callable} {args : Arguments} {w : World} {σ fuel : Nat}

theorem invoke_eq (fuel : Nat) : invoke fuel = invokeBy (Callable.callee fuel) := by
  cases fuel <;> rfl

/-- Both parts of a sequence keep to the heap. -/
theorem Host.HeapOnly.bind {α β : Type} {x : Host α} {k : α → Host β} (hx : x.HeapOnly)
    (hk : ∀ a, (k a).HeapOnly) : Host.HeapOnly (x >>= k) := by
  intro w
  have hfirst := hx w
  rw [Run.bind_apply]
  rcases hxw : x w with ⟨a | e | p | _, w₁⟩
  all_goals rw [hxw] at hfirst
  · obtain ⟨heap, rfl⟩ : ∃ heap, w₁ = { w with heap } := ⟨_, hfirst⟩
    exact hk a _
  all_goals exact hfirst

theorem Host.HeapOnly.catchError {α : Type} {x : Host α} (hx : x.HeapOnly) :
    Host.HeapOnly (Run.catchError x) := by
  intro w
  have hrun := hx w
  unfold Run.catchError
  rcases hxw : x w with ⟨a | e | p | _, w₁⟩
  all_goals
    rw [hxw] at hrun
    exact hrun

theorem heapOnly_changeFirst (change : Value → Heap → Bool × Heap) (args : Arguments) :
    Host.HeapOnly (changeFirst change args) := by
  unfold changeFirst
  cases args.positional with
  | nil => exact fun _ => rfl
  | cons target rest => exact Host.HeapOnly.bind (fun _ => rfl) fun _ _ => rfl

theorem heapOnly_bindFirst (args : Arguments) : Host.HeapOnly (bindFirst args) := by
  unfold bindFirst
  split
  next => exact Host.HeapOnly.bind (fun _ => rfl) fun _ _ => rfl
  next => exact fun _ => rfl

/-- A body that calls nothing keeps to the heap, and so records nothing. -/
theorem heapOnly_runBody {body : Body Value} (h : body.callsNothing = true) (args : Arguments) :
    Host.HeapOnly (runBody call body args) := by
  induction body generalizing args with
  | append item => exact heapOnly_changeFirst _ args
  | insert key item => exact heapOnly_changeFirst _ args
  | bind => exact heapOnly_bindFirst args
  | call name => cases h
  | apply => cases h
  | andThen first second ih₁ ih₂ =>
    obtain ⟨h₁, h₂⟩ := Bool.and_eq_true_iff.mp h
    exact (ih₁ h₁ args).bind fun _ => ih₂ h₂ args
  | pipe first second ih₁ ih₂ =>
    obtain ⟨h₁, h₂⟩ := Bool.and_eq_true_iff.mp h
    exact (ih₁ h₁ args).bind fun v => ih₂ h₂ (args.prepend v)
  | recover first second ih₁ ih₂ =>
    obtain ⟨h₁, h₂⟩ := Bool.and_eq_true_iff.mp h
    refine (ih₁ h₁ args).catchError.bind fun result => ?_
    cases result with
    | ok v => exact fun w => rfl
    | error e => exact ih₂ h₂ args
  | branch test yes no ih₁ ih₂ ih₃ =>
    obtain ⟨h₁₂, h₃⟩ := Bool.and_eq_true_iff.mp h
    obtain ⟨h₁, h₂⟩ := Bool.and_eq_true_iff.mp h₁₂
    refine (ih₁ h₁ args).bind fun v => ?_
    split
    next => exact ih₂ h₂ args
    next => exact ih₃ h₃ args
  | _ => exact fun w => rfl

section Interceptor

variable {store maxDepth : Nat} {label : String} {paramNames : List String} {samples : List Sample}
  {w₁ : World}

/-- An interceptor whose capture is clean records and goes on, unless the call is one too many. -/
theorem invokeBy_interceptor
    (h : captureArguments (answerBy call) maxDepth args paramNames w = (.ok samples, w₁))
    (serial : Nat) : invokeBy call (.interceptor serial label paramNames store maxDepth f) args w =
      let w₂ := w₁.onStore store (Store.keep w₁.overflow label samples paramNames)
      if w₁.overflows store label then (.panic (.text Overflow.message), w₂)
      else invokeBy call f args w₂ := by
  simp only [invokeBy, recordCall, Run.bind_apply, Run.catchPanic, h, keepCall_eq]
  cases w₁.overflows store label <;> rfl

namespace Callable.HasRoom

variable {serial : Nat}

theorem congr (h : f.HasRoom w) (hstores : w₁.stores = w.stores) : f.HasRoom w₁ := by
  unfold HasRoom
  rw [hstores]
  exact h

theorem callCount (h : HasRoom (.interceptor serial label paramNames store maxDepth f) w)
    {s : Store} (hs : w.stores[store]? = some s) : s.callCount label + 1 < wordLimit := by
  have hroom := h store s hs label
  rw [layers, if_pos rfl] at hroom
  omega

theorem overflows (h : HasRoom (.interceptor serial label paramNames store maxDepth f) w) :
    w.overflows store label = false := by
  unfold World.overflows
  cases hs : w.stores[store]? with
  | none => exact Bool.and_false _
  | some s =>
    have hnot : s.isFull label = false := Bool.eq_false_iff.mpr fun hfull =>
      Nat.ne_of_lt (h.callCount hs) ((s.isFull_iff label).mp hfull)
    rw [Option.any_some, hnot, Bool.and_false]

/-- Where there is room for the call of an interceptor, there is afterwards for what is below. -/
theorem target (h : HasRoom (.interceptor serial label paramNames store maxDepth f) w) :
    f.HasRoom (w.onStore store (Store.keep w.overflow label samples paramNames)) := by
  intro σ s hs name
  rw [World.onStore, Array.getElem?_modify] at hs
  by_cases hσ : store = σ
  · rw [if_pos hσ] at hs
    obtain ⟨s₀, hs₀, rfl⟩ := Option.map_eq_some_iff.mp hs
    have hroom := h σ s₀ hs₀ name
    rw [layers, if_pos hσ] at hroom
    have hle := s₀.callCount_keep_le w.overflow label samples paramNames name
    omega
  · rw [if_neg hσ] at hs
    have hroom := h σ s hs name
    rwa [layers, if_neg hσ] at hroom

end Callable.HasRoom

end Interceptor

/-- A call counts in a store at most once for each interceptor of the chain that records to it, and
exactly once if there is room. -/
theorem calls_invokeBy (σ : Nat) : ∀ (f : Callable) (args : Arguments) (w : World),
    f.body.callsNothing = true → f.CapturesCleanly call args w →
    f.RecordsBelow w.stores.size →
    (invokeBy call f args w).2.calls σ ≤ w.calls σ + f.layers σ ∧
      (f.HasRoom w → (invokeBy call f args w).2.calls σ = w.calls σ + f.layers σ)
  | .native _ _ body, args, w, hbody, _, _ => by
    have hbody : Host.HeapOnly (runBody call body args) := heapOnly_runBody hbody args
    rw [invokeBy, hbody w]
    exact ⟨Nat.le_refl _, fun _ => rfl⟩
  | .bound _ receiver target, args, w, hbody, hclean, hstores =>
    calls_invokeBy σ target (args.prepend receiver) w hbody hclean hstores
  | .interceptor _ label paramNames store maxDepth target, args, w, hbody, hclean, hstores => by
    obtain ⟨samples, w₁, hcapture, hsame, hrest⟩ := hclean
    have hcalls : w₁.calls σ = w.calls σ := by rw [World.calls, hsame, World.calls]
    have hkept := w₁.calls_onStore_keep_le store σ label samples paramNames
    rw [invokeBy_interceptor hcapture, Callable.layers]
    dsimp only
    split
    next hfull =>
      refine ⟨by dsimp only; omega, fun hroom => ?_⟩
      rw [(hroom.congr hsame).overflows] at hfull
      cases hfull
    next hnot =>
      have hnext := w₁.onStore_keep store label samples paramNames
      rw [if_neg hnot] at hnext
      have htarget : target.RecordsBelow
          (w₁.onStore store (Store.apply label samples paramNames)).stores.size := by
        rw [World.onStore, Array.size_modify, hsame]
        exact hstores.2
      rw [hnext] at hkept ⊢
      obtain ⟨hle, heq⟩ := calls_invokeBy σ target args _ hbody hrest htarget
      refine ⟨by omega, fun hroom => ?_⟩
      have hroom := hroom.congr hsame
      have hstore : store < w₁.stores.size := by
        rw [hsame]
        exact hstores.1
      have hs := Array.getElem?_eq_getElem hstore
      have hone := World.calls_onStore_keep hs (hroom.callCount hs) σ samples paramNames
      rw [hnext] at hone
      rw [heq (hnext ▸ hroom.target), hone]
      omega

theorem Callable.Undisturbed.calls_invoke_le (h : f.Undisturbed fuel args w) (σ : Nat) :
    (invoke fuel f args w).2.calls σ ≤ w.calls σ + f.layers σ := by
  rw [invoke_eq]
  exact (calls_invokeBy σ f args w h.body h.captures h.stores).1

theorem Callable.Undisturbed.calls_invoke (h : f.Undisturbed fuel args w) (hroom : f.HasRoom w)
    (σ : Nat) : (invoke fuel f args w).2.calls σ = w.calls σ + f.layers σ := by
  rw [invoke_eq]
  exact (calls_invokeBy σ f args w h.body h.captures h.stores).2 hroom

/-! ## The flag -/

/-- A callable that says that it records is an interceptor, and so are all that record save bound
methods. -/
theorem Callable.isInterceptor_iff (f : Callable) :
    f.isInterceptor = true ↔ f.isBound = false ∧ ∃ σ, 0 < f.layers σ := by
  cases f with
  | native serial signature body => simp [isInterceptor, layers]
  | bound serial receiver target => simp [isInterceptor, isBound]
  | interceptor serial label paramNames store maxDepth target =>
    exact ⟨fun _ => ⟨rfl, store, by simp [layers]⟩, fun _ => rfl⟩

/-- A callable that is no bound method says that it records exactly if calling it counts in some
store. -/
theorem Callable.Undisturbed.isInterceptor_iff_records (h : f.Undisturbed fuel args w)
    (hroom : f.HasRoom w) : f.isInterceptor = true ↔
      f.isBound = false ∧ ∃ σ, w.calls σ < (invoke fuel f args w).2.calls σ := by
  simp only [f.isInterceptor_iff, h.calls_invoke hroom, Nat.lt_add_right_iff_pos]

end Chains

end CallSampler
