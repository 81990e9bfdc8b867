import CallSampler.Call

/-!
# Captures do not err

An object that calls a function when it is asked for its attributes catches the error that the call
may end in. So a capture returns, panics or does not end, but it never errs
(`unfailing_captureArguments`), and once its panics are caught it returns or does not end.
-/

namespace CallSampler

namespace Run

variable {σ ε α β : Type} {x : Run σ ε α}

/-- The run has no error of its own: it returns, panics or does not end. -/
def Unfailing (x : Run σ ε α) : Prop := ∀ s e, (x s).1 ≠ .error e

theorem unfailing_pure (a : α) : (pure a : Run σ ε α).Unfailing := by
  intro s e h
  cases h

theorem unfailing_panic (p : Payload) : (panic p : Run σ ε α).Unfailing := by
  intro s e h
  cases h

theorem unfailing_inspect (f : σ → α) : (inspect f : Run σ ε α).Unfailing := by
  intro s e h
  cases h

theorem Unfailing.bind {k : α → Run σ ε β} (hx : x.Unfailing) (hk : ∀ a, (k a).Unfailing) :
    (x >>= k).Unfailing := by
  intro s e
  have hs := hx s
  rw [bind_apply]
  rcases hxs : x s with ⟨a | e' | p | _, s₁⟩
  · exact hk a s₁ e
  · rw [hxs] at hs
    exact absurd rfl (hs e')
  · intro h
    cases h
  · intro h
    cases h

theorem unfailing_mapM {k : α → Run σ ε β} (hk : ∀ a, (k a).Unfailing) (items : List α) :
    (items.mapM k).Unfailing := by
  induction items with
  | nil => exact unfailing_pure []
  | cons a rest ih =>
    rw [List.mapM_cons]
    exact (hk a).bind fun b => ih.bind fun bs => unfailing_pure (b :: bs)

theorem unfailing_catchError (x : Run σ ε α) : (catchError x).Unfailing := by
  intro s e
  unfold catchError
  rcases x s with ⟨_ | _ | _ | _, _⟩ <;> exact fun h => by cases h

theorem of_catchPanic {s s' : σ} {a : α} (h : catchPanic x s = (.ok (.ok a), s')) :
    x s = (.ok a, s') := by
  unfold catchPanic at h
  rcases hx : x s with ⟨a | e | p | _, s₁⟩
  all_goals
    rw [hx] at h
    cases h
  rfl

/-- What is left once errors are ruled out and panics are caught. -/
theorem catchPanic_ends (hx : x.Unfailing) (s : σ) :
    (∃ r, (catchPanic x s).1 = .ok r) ∨ (catchPanic x s).1 = .exhausted := by
  have hs := hx s
  unfold catchPanic
  rcases hxs : x s with ⟨a | e | p | _, s₁⟩
  · exact Or.inl ⟨_, rfl⟩
  · rw [hxs] at hs
    exact absurd rfl (hs e)
  · exact Or.inl ⟨_, rfl⟩
  · exact Or.inr rfl

end Run

/-! ## Captures -/

section Unfailing

variable {answer : Answering}

theorem unfailing_answerBy (call : Calling) (o : Object) : (answerBy call o).Unfailing := by
  unfold answerBy
  cases o.attributes with
  | absent => exact Run.unfailing_pure _
  | listed entries => exact Run.unfailing_pure _
  | panics payload => exact Run.unfailing_panic _
  | calls name arguments =>
    refine (Run.unfailing_catchError _).bind fun result => ?_
    cases result <;> exact Run.unfailing_pure _

theorem unfailing_renderKey (key : Value) : (renderKey key).Unfailing := by
  refine (Run.unfailing_inspect _).bind fun rendered => ?_
  cases rendered with
  | ok text => exact Run.unfailing_pure _
  | error fault => exact Run.unfailing_panic _

theorem unfailing_captureNode (ha : ∀ o, (answer o).Unfailing) {inner : Value → Host Json}
    (hi : ∀ v, (inner v).Unfailing) (v : Value) : (captureNode answer inner v).Unfailing := by
  cases v with
  | list cell =>
    exact (Run.unfailing_inspect _).bind fun items =>
      (Run.unfailing_mapM hi items).bind fun images => Run.unfailing_pure _
  | tuple items =>
    exact (Run.unfailing_mapM hi items).bind fun images => Run.unfailing_pure _
  | dict cell =>
    refine (Run.unfailing_inspect _).bind fun entries => ?_
    refine (Run.unfailing_mapM (fun e => ?_) entries).bind fun images => Run.unfailing_pure _
    exact (unfailing_renderKey e.1).bind fun key =>
      (hi e.2).bind fun image => Run.unfailing_pure _
  | object cell =>
    refine (Run.unfailing_inspect _).bind fun o? => ?_
    cases o? with
    | none => exact Run.unfailing_pure _
    | some o =>
      dsimp only
      split
      next => exact Run.unfailing_pure _
      next =>
        refine (ha o).bind fun attributes? => ?_
        cases attributes? with
        | none => exact Run.unfailing_pure _
        | some attributes =>
          refine (Run.unfailing_mapM (fun a => ?_) _).bind fun images => Run.unfailing_pure _
          exact (hi a.2).bind fun image => Run.unfailing_pure _
  | _ => exact Run.unfailing_pure _

theorem unfailing_captureLevels (ha : ∀ o, (answer o).Unfailing) (levels : Nat) (v : Value) :
    (captureLevels answer levels v).Unfailing := by
  induction levels generalizing v with
  | zero => exact Run.unfailing_pure _
  | succ levels ih => exact unfailing_captureNode ha ih v

theorem unfailing_captureArguments (ha : ∀ o, (answer o).Unfailing) (maxDepth : Nat)
    (args : Arguments) (paramNames : List String) :
    (captureArguments answer maxDepth args paramNames).Unfailing := by
  have hsample : ∀ v : Value × Nat, (captureSample answer maxDepth v).Unfailing := fun v =>
    (unfailing_captureLevels ha _ v.1).bind fun image => Run.unfailing_pure _
  exact (Run.unfailing_mapM hsample _).bind fun positional =>
    (Run.unfailing_mapM hsample _).bind fun keywords => Run.unfailing_pure _

end Unfailing

end CallSampler
