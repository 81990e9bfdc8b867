import CallSampler.Outcome

/-!
# Runs that follow each other

A run on a reduced state follows one on the full state if it ends the same way, with the reduced
value and in the reduced state, from every good state, and good states stay good (`Run.Follows`).
Some states may spoil that: from a run that ends in one nothing is asked, and they stay spoilt.
Runs that follow each other do so when they are put in sequence (`FollowsAt.bind`). A run is still
if it returns or panics and leaves the state alone (`Run.Still`); that is closed under sequence too.
-/

namespace CallSampler

namespace Run

variable {σ ε α β γ δ : Type}

/-- From `s` the run `x` leaves a good state, and unless that is spoilt, `y` ends as `x` does from
the reduced state. -/
structure FollowsAt (reduce : σ → σ) (good spoilt : σ → Prop) (f : α → β) (x : Run σ ε α)
    (y : Run σ ε β) (s : σ) : Prop where
  ends : ¬ spoilt (x s).2 → y (reduce s) = ((x s).1.map f, reduce (x s).2)
  good : good (x s).2
  spoilt : spoilt s → spoilt (x s).2

/-- The same from every good state. -/
def Follows (reduce : σ → σ) (good spoilt : σ → Prop) (f : α → β) (x : Run σ ε α)
    (y : Run σ ε β) : Prop :=
  ∀ s, good s → FollowsAt reduce good spoilt f x y s

/-- The same from every state, and none is spoilt. -/
abbrev Mirrors (reduce : σ → σ) (f : α → β) (x : Run σ ε α) (y : Run σ ε β) : Prop :=
  Follows reduce (fun _ => True) (fun _ => False) f x y

section Follows

variable {reduce : σ → σ} {good spoilt : σ → Prop} {f : α → β} {g : γ → δ} {x : Run σ ε α}
  {y : Run σ ε β}

theorem FollowsAt.of_eq {s s₁ : σ} {o : Outcome ε α} (hx : x s = (o, s₁))
    (hends : ¬ spoilt s₁ → y (reduce s) = (o.map f, reduce s₁)) (hgood : good s₁)
    (hspoilt : spoilt s → spoilt s₁) : FollowsAt reduce good spoilt f x y s where
  ends := by rw [hx]; exact hends
  good := by rw [hx]; exact hgood
  spoilt := by rw [hx]; exact hspoilt

theorem FollowsAt.congr {x' : Run σ ε α} {y' : Run σ ε β} {s : σ}
    (h : FollowsAt reduce good spoilt f x' y' s) (hx : x s = x' s)
    (hy : y (reduce s) = y' (reduce s)) : FollowsAt reduce good spoilt f x y s where
  ends := by rw [hx, hy]; exact h.ends
  good := by rw [hx]; exact h.good
  spoilt := by rw [hx]; exact h.spoilt

/-- What leaves the state alone follows wherever it ends the same way. -/
theorem FollowsAt.still {s : σ} (hs : good s) {o : Outcome ε α} (hx : x s = (o, s))
    (hy : y (reduce s) = (o.map f, reduce s)) : FollowsAt reduce good spoilt f x y s :=
  .of_eq hx (fun _ => hy) hs id

theorem follows_pure (a : α) :
    Follows reduce good spoilt f (pure a : Run σ ε α) (pure (f a) : Run σ ε β) :=
  fun _ hs => .still hs rfl rfl

theorem follows_fail (e : ε) :
    Follows reduce good spoilt f (fail e : Run σ ε α) (fail e : Run σ ε β) :=
  fun _ hs => .still hs rfl rfl

theorem follows_panic (p : Payload) :
    Follows reduce good spoilt f (panic p : Run σ ε α) (panic p : Run σ ε β) :=
  fun _ hs => .still hs rfl rfl

theorem follows_exhaust :
    Follows reduce good spoilt f (exhaust : Run σ ε α) (exhaust : Run σ ε β) :=
  fun _ hs => .still hs rfl rfl

theorem Mirrors.ends (h : Mirrors reduce f x y) (s : σ) :
    y (reduce s) = ((x s).1.map f, reduce (x s).2) := (h s trivial).ends id

theorem mirrors_self (x : Run σ ε α) : Mirrors id id x x := by
  refine fun s _ => ⟨fun _ => ?_, trivial, id⟩
  show x s = ((x s).1.map id, (x s).2)
  rcases x s with ⟨_ | _ | _ | _, _⟩ <;> rfl

theorem follows_inspect {p : σ → α} {q : σ → β} (h : ∀ s, q (reduce s) = f (p s)) :
    Follows reduce good spoilt f (inspect p : Run σ ε α) (inspect q : Run σ ε β) :=
  fun _ hs => .still hs rfl (by rw [inspect, h]; rfl)

theorem follows_step {p : σ → α × σ} {q : σ → β × σ}
    (h : ∀ s, good s → q (reduce s) = (p s).map f reduce ∧ good (p s).2)
    (hspoilt : ∀ s, spoilt s → spoilt (p s).2) :
    Follows reduce good spoilt f (step p : Run σ ε α) (step q : Run σ ε β) :=
  fun s hs => ⟨fun _ => by rw [step, (h s hs).1]; rfl, (h s hs).2, hspoilt s⟩

theorem follows_update {p q : σ → σ} (h : ∀ s, good s → q (reduce s) = reduce (p s) ∧ good (p s))
    (hspoilt : ∀ s, spoilt s → spoilt (p s)) {f : Unit → Unit} :
    Follows reduce good spoilt f (update p : Run σ ε Unit) (update q : Run σ ε Unit) :=
  fun s hs => ⟨fun _ => by rw [update, (h s hs).1]; rfl, (h s hs).2, hspoilt s⟩

theorem FollowsAt.bind {s : σ} {k : α → Run σ ε γ} {l : β → Run σ ε δ}
    (hx : FollowsAt reduce good spoilt f x y s)
    (hk : ∀ a, (x s).1 = .ok a → FollowsAt reduce good spoilt g (k a) (l (f a)) (x s).2) :
    FollowsAt reduce good spoilt g (x >>= k) (y >>= l) s := by
  obtain ⟨hy, hgood, hspoilt⟩ := hx
  rcases hxs : x s with ⟨a | e | p | _, s₁⟩
  all_goals rw [hxs] at hy hgood hspoilt hk
  · have hnext := hk a rfl
    have hrun : (x >>= k) s = ((k a s₁).1, (k a s₁).2) := by rw [bind_apply, hxs]
    refine .of_eq hrun (fun hroom => ?_) hnext.good fun hs => hnext.spoilt (hspoilt hs)
    rw [bind_apply, hy fun hs => hroom (hnext.spoilt hs)]
    exact hnext.ends hroom
  all_goals
    refine .of_eq (by rw [bind_apply, hxs]) (fun hroom => ?_) hgood hspoilt
    rw [bind_apply, hy hroom]
    rfl

theorem follows_bind {k : α → Run σ ε γ} {l : β → Run σ ε δ}
    (hx : Follows reduce good spoilt f x y)
    (hk : ∀ a, Follows reduce good spoilt g (k a) (l (f a))) :
    Follows reduce good spoilt g (x >>= k) (y >>= l) :=
  fun s hs => (hx s hs).bind fun a _ => hk a _ (hx s hs).good

theorem follows_mapM {k : α → Run σ ε γ} {l : α → Run σ ε δ}
    (hk : ∀ a, Follows reduce good spoilt g (k a) (l a)) (items : List α) :
    Follows reduce good spoilt (List.map g) (items.mapM k) (items.mapM l) := by
  induction items with
  | nil => exact follows_pure []
  | cons a rest ih =>
    rw [List.mapM_cons, List.mapM_cons]
    exact follows_bind (hk a) fun c => follows_bind ih fun cs => follows_pure (c :: cs)

/-- Something is made of how the run ends, whichever way that is. -/
theorem follows_outcome {ε' : Type} {p : Outcome ε α → Outcome ε' γ}
    {q : Outcome ε β → Outcome ε' δ} (hx : Follows reduce good spoilt f x y)
    (h : ∀ o, q (o.map f) = (p o).map g) :
    Follows reduce good spoilt g (fun s => (p (x s).1, (x s).2)) fun s => (q (y s).1, (y s).2) := by
  intro s hs
  obtain ⟨hy, hgood, hspoilt⟩ := hx s hs
  refine ⟨fun hroom => ?_, hgood, hspoilt⟩
  show (q (y (reduce s)).1, (y (reduce s)).2) = ((p (x s).1).map g, reduce (x s).2)
  rw [hy hroom, h]

theorem follows_catchError (hx : Follows reduce good spoilt f x y) :
    Follows reduce good spoilt (Except.map f) (catchError x) (catchError y) := by
  intro s hs
  obtain ⟨hy, hgood, hspoilt⟩ := hx s hs
  rcases hxs : x s with ⟨a | e | p | _, s₁⟩
  all_goals
    rw [hxs] at hy hgood hspoilt
    refine .of_eq (by rw [catchError, hxs]) (fun hroom => ?_) hgood hspoilt
    rw [catchError, hy hroom]
    rfl

theorem follows_catchPanic (hx : Follows reduce good spoilt f x y) :
    Follows reduce good spoilt (Except.map f) (catchPanic x) (catchPanic y) := by
  intro s hs
  obtain ⟨hy, hgood, hspoilt⟩ := hx s hs
  rcases hxs : x s with ⟨a | e | p | _, s₁⟩
  all_goals
    rw [hxs] at hy hgood hspoilt
    refine .of_eq (by rw [catchPanic, hxs]) (fun hroom => ?_) hgood hspoilt
    rw [catchPanic, hy hroom]
    rfl

/-- What changes nothing that shows can be done first. It may go wrong if it spoils the state. -/
theorem follows_after {z : Run σ ε Unit} (hx : Follows reduce good spoilt f x y)
    (hz : ∀ s, good s → reduce (z s).2 = reduce s ∧ good (z s).2 ∧ (spoilt s → spoilt (z s).2) ∧
      ((z s).1 = .ok () ∨ spoilt (z s).2)) :
    Follows reduce good spoilt f (z >>= fun _ => x) y := by
  intro s hs
  obtain ⟨hreduce, hgood, hspoilt, hends⟩ := hz s hs
  rcases hzs : z s with ⟨_ | e | p | _, s₁⟩
  all_goals rw [hzs] at hreduce hgood hspoilt hends
  · have hnext := hx s₁ hgood
    have hrun : (z >>= fun _ => x) s = ((x s₁).1, (x s₁).2) := by rw [bind_apply, hzs]
    refine .of_eq hrun (fun hroom => ?_) hnext.good fun hs => hnext.spoilt (hspoilt hs)
    rw [← hreduce]
    exact hnext.ends hroom
  all_goals
    have hfull : spoilt s₁ := hends.resolve_left (by simp)
    exact .of_eq (by rw [bind_apply, hzs]) (fun hroom => absurd hfull hroom) hgood hspoilt

end Follows

/-- The run returns or panics, and leaves the state alone. -/
def Still (x : Run σ ε α) (s : σ) : Prop := (∃ a, x s = (.ok a, s)) ∨ ∃ p, x s = (.panic p, s)

section Still

variable {s : σ} {x : Run σ ε α}

theorem still_pure (a : α) : (pure a : Run σ ε α).Still s := Or.inl ⟨a, rfl⟩

theorem still_panic (p : Payload) : (panic p : Run σ ε α).Still s := Or.inr ⟨p, rfl⟩

theorem still_inspect (f : σ → α) : (inspect f : Run σ ε α).Still s := Or.inl ⟨f s, rfl⟩

theorem Still.bind {k : α → Run σ ε β} (hx : x.Still s) (hk : ∀ a, (k a).Still s) :
    (x >>= k).Still s := by
  rcases hx with ⟨a, ha⟩ | ⟨p, hp⟩
  · have hka := hk a
    unfold Still
    rw [bind_apply, ha]
    exact hka
  · exact Or.inr ⟨p, by rw [bind_apply, hp]⟩

theorem still_inspect_bind {f : σ → α} {k : α → Run σ ε β} (hk : (k (f s)).Still s) :
    (inspect f >>= k).Still s := hk

theorem still_mapM {k : α → Run σ ε β} {items : List α} (hk : ∀ a, (k a).Still s) :
    (items.mapM k).Still s := by
  induction items with
  | nil => exact still_pure []
  | cons a rest ih =>
    rw [List.mapM_cons]
    exact (hk a).bind fun b => ih.bind fun bs => still_pure (b :: bs)

end Still

end Run

end CallSampler
