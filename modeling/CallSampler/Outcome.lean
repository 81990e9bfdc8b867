import CallSampler.Value.Basic

/-!
# Runs

Host code ends in one of four ways: with a value, with an error, with a panic, or not at all, which
shows as exhausted fuel. A run maps a state to an outcome and the state then; whatever happened
before an error or a panic has happened.
-/

namespace CallSampler

/-- How a run ends. -/
inductive Outcome (ε α : Type) where
  | ok (value : α)
  | error (cause : ε)
  | panic (payload : Payload)
  /-- The fuel did not last. -/
  | exhausted

namespace Outcome

variable {ε ε' α β : Type}

def mapError (f : ε → ε') : Outcome ε α → Outcome ε' α
  | .ok a => .ok a
  | .error e => .error (f e)
  | .panic p => .panic p
  | .exhausted => .exhausted

def map (f : α → β) : Outcome ε α → Outcome ε β
  | .ok a => .ok (f a)
  | .error e => .error e
  | .panic p => .panic p
  | .exhausted => .exhausted

end Outcome

/-- A computation over a state `σ` that may err with an `ε`. -/
def Run (σ ε α : Type) : Type := σ → Outcome ε α × σ

namespace Run

variable {σ ε α β : Type}

def give (a : α) : Run σ ε α := fun s => (.ok a, s)

/-- Go on with the value of a run. Any other outcome is the outcome of the whole. -/
def bind (x : Run σ ε α) (f : α → Run σ ε β) : Run σ ε β := fun s =>
  match x s with
  | (.ok a, s) => f a s
  | (.error e, s) => (.error e, s)
  | (.panic p, s) => (.panic p, s)
  | (.exhausted, s) => (.exhausted, s)

instance : Monad (Run σ ε) where
  pure := give
  bind := bind

def fail (e : ε) : Run σ ε α := fun s => (.error e, s)

def panic (p : Payload) : Run σ ε α := fun s => (.panic p, s)

/-- Give up for want of fuel. -/
def exhaust : Run σ ε α := fun s => (.exhausted, s)

def inspect (f : σ → α) : Run σ ε α := fun s => (.ok (f s), s)

def update (f : σ → σ) : Run σ ε Unit := fun s => (.ok (), f s)

def step (f : σ → α × σ) : Run σ ε α := fun s => let (a, s) := f s; (.ok a, s)

/-- Run, and turn a panic into a value. -/
def catchPanic (x : Run σ ε α) : Run σ ε (Except Payload α) := fun s =>
  match x s with
  | (.ok a, s) => (.ok (.ok a), s)
  | (.error e, s) => (.error e, s)
  | (.panic p, s) => (.ok (.error p), s)
  | (.exhausted, s) => (.exhausted, s)

/-- Run, and turn an error into a value. -/
def catchError (x : Run σ ε α) : Run σ ε (Except ε α) := fun s =>
  match x s with
  | (.ok a, s) => (.ok (.ok a), s)
  | (.error e, s) => (.ok (.error e), s)
  | (.panic p, s) => (.panic p, s)
  | (.exhausted, s) => (.exhausted, s)

@[simp] theorem pure_apply (a : α) (s : σ) : (pure a : Run σ ε α) s = (.ok a, s) := rfl

theorem bind_apply (x : Run σ ε α) (f : α → Run σ ε β) (s : σ) :
    (x >>= f) s = match x s with
      | (.ok a, s) => f a s
      | (.error e, s) => (.error e, s)
      | (.panic p, s) => (.panic p, s)
      | (.exhausted, s) => (.exhausted, s) := rfl

/-- A sequence returns only if both of its parts do. -/
theorem bind_eq_ok {x : Run σ ε α} {f : α → Run σ ε β} {s s' : σ} {b : β}
    (h : (x >>= f) s = (.ok b, s')) : ∃ a s₁, x s = (.ok a, s₁) ∧ f a s₁ = (.ok b, s') := by
  rw [bind_apply] at h
  split at h
  next a s₁ hx => exact ⟨a, s₁, hx, h⟩
  all_goals cases h

/-- Running a value-preserving continuation changes nothing. -/
theorem bind_give (x : Run σ ε α) : bind x give = x := by
  funext s
  unfold bind
  rcases x s with ⟨_ | _ | _ | _, _⟩ <;> rfl

/-- Continuations nest either way. -/
theorem bind_assoc {γ : Type} (x : Run σ ε α) (f : α → Run σ ε β) (g : β → Run σ ε γ) :
    bind (bind x f) g = bind x fun a => bind (f a) g := by
  funext s
  unfold bind
  rcases x s with ⟨_ | _ | _ | _, _⟩ <;> rfl

instance : LawfulMonad (Run σ ε) where
  map_const := rfl
  id_map := bind_give
  seqLeft_eq := fun x y => by
    show bind x (fun a => bind y fun _ => give a) =
      bind (bind x fun a => give fun _ => a) fun f => bind y fun b => give (f b)
    rw [bind_assoc]
    rfl
  seqRight_eq := fun x y => by
    show bind x (fun _ => y) = bind (bind x fun _ => give id) fun f => bind y fun b => give (f b)
    rw [bind_assoc]
    exact congrArg (bind x) (funext fun _ => (bind_give y).symm)
  pure_seq := fun _ _ => rfl
  bind_pure_comp := fun _ _ => rfl
  bind_map := fun _ _ => rfl
  pure_bind := fun _ _ => rfl
  bind_assoc := bind_assoc

/-- Each value of a traversal was returned for an item of the list. -/
theorem mapM_eq_ok {xs : List α} {f : α → Run σ ε β} {s s' : σ} {ys : List β}
    (h : xs.mapM f s = (.ok ys, s')) : ∀ y ∈ ys, ∃ x ∈ xs, ∃ s₁ s₂, f x s₁ = (.ok y, s₂) := by
  induction xs generalizing s ys with
  | nil =>
    cases h
    simp
  | cons x xs ih =>
    rw [List.mapM_cons] at h
    obtain ⟨y, s₁, hy, h⟩ := bind_eq_ok h
    obtain ⟨zs, s₂, hzs, h⟩ := bind_eq_ok h
    cases h
    refine List.forall_mem_cons.mpr ⟨⟨x, List.mem_cons_self, s, s₁, hy⟩, fun z hz => ?_⟩
    obtain ⟨x', hx', hz⟩ := ih hzs z hz
    exact ⟨x', List.mem_cons_of_mem _ hx', hz⟩

end Run

end CallSampler
