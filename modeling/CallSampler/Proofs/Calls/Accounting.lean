import CallSampler.Proofs.Calls.Obeying
import CallSampler.Proofs.Calls.Watching
import CallSampler.Proofs.Capture.Unfailing

/-!
# Accounting for calls

A watched run is the run that it watches, and the stores and notices at its end are those at its
start after every listed interception did what it does by itself (`Watches`); each of these captured
the arguments that it lists, in the world that it lists. A rule about the store and the depth limit
of an interceptor that holds of all that the run starts with holds of every interception and of what
the run leaves and returns. That is so of every run that keeps to the heap (`watches_plain`), of the
call of an interceptor, with the interceptions that its capture caused in front
(`watches_recordCall`), and of whatever is put together from such runs; so it is so of every call
(`watches_invoke`).
-/

namespace CallSampler

/-! ## What a call leaves in its store -/

/-- What a store makes of a call. Where the host checks its sums and the count is full, it gets no
further than the names. -/
def Store.keep (o : Overflow) (label : String) (samples : List Sample) (paramNames : List String)
    (s : Store) : Store :=
  if o = .panics && s.isFull label then s.rename label paramNames
  else s.apply label samples paramNames

theorem World.onStore_congr {w : World} {store : Nat} {f g : Store → Store}
    (h : ∀ s, w.stores[store]? = some s → f s = g s) : w.onStore store f = w.onStore store g := by
  have hstores : w.stores.modify store f = w.stores.modify store g := by
    refine Array.ext_getElem? fun i => ?_
    rw [Array.getElem?_modify, Array.getElem?_modify]
    by_cases hi : store = i
    · subst hi
      rw [if_pos rfl, if_pos rfl]
      cases hs : w.stores[store]? with
      | none => rfl
      | some s => rw [Option.map_some, Option.map_some, h s hs]
    · rw [if_neg hi, if_neg hi]
  rw [onStore, onStore, hstores]

theorem World.onStore_keep (store : Nat) (label : String) (samples : List Sample)
    (paramNames : List String) (w : World) :
    w.onStore store (Store.keep w.overflow label samples paramNames) =
      w.onStore store (if w.overflows store label then Store.rename label paramNames
        else Store.apply label samples paramNames) := by
  refine onStore_congr fun s hs => ?_
  simp only [Store.keep, overflows, hs, Option.any_some]
  split <;> rfl

/-- Keeping a call returns unless it is one too many. -/
theorem keepCall_eq (store : Nat) (label : String) (samples : List Sample)
    (paramNames : List String) (w : World) : keepCall store label samples paramNames w =
      (if w.overflows store label then .panic (.text Overflow.message) else .ok (),
        w.onStore store (Store.keep w.overflow label samples paramNames)) := by
  rw [World.onStore_keep, keepCall, Run.bind_apply, Run.inspect]
  cases hfull : w.overflows store label <;> rfl

/-! ## What interceptions do -/

namespace Interception

/-- The world once an interception did what it does by itself. -/
def after (c : Interception) (w : World) : World := (c.settle w).2

/-- What several interceptions and all that they caused do, in the order in which they ended. -/
def afterAll (calls : List Interception) (w : World) : World :=
  (allOf calls).foldl (fun w c => c.after w) w

section After

variable {c : Interception} {samples : List Sample} {payload : Payload}

theorem settle_of_ok (h : c.captured = .ok samples) :
    c.settle = keepCall c.store c.label samples c.paramNames := by
  rw [settle, h]

theorem settle_of_error (h : c.captured = .error payload) :
    c.settle = Run.update (World.notify (.captureFailed c.label payload)) := by
  rw [settle, h]

theorem after_of_ok (h : c.captured = .ok samples) (w : World) :
    c.after w = w.onStore c.store (Store.keep w.overflow c.label samples c.paramNames) := by
  rw [after, settle_of_ok h, keepCall_eq]

theorem after_of_error (h : c.captured = .error payload) (w : World) :
    c.after w = w.notify (.captureFailed c.label payload) := by
  rw [after, settle_of_error h]
  rfl

theorem after_heap (c : Interception) (w : World) (h : Heap) :
    c.after { w with heap := h } = { c.after w with heap := h } := by
  cases hc : c.captured with
  | ok samples =>
    rw [after_of_ok hc, after_of_ok hc]
    rfl
  | error payload =>
    rw [after_of_error hc, after_of_error hc]
    rfl

theorem heap_after (c : Interception) (w : World) : (c.after w).heap = w.heap := by
  cases hc : c.captured with
  | ok samples => rw [after_of_ok hc, World.onStore]
  | error payload => rw [after_of_error hc, World.notify]

theorem overflow_after (c : Interception) (w : World) : (c.after w).overflow = w.overflow := by
  cases hc : c.captured with
  | ok samples => rw [after_of_ok hc, World.onStore]
  | error payload => rw [after_of_error hc, World.notify]

theorem allOf_append (before after : List Interception) :
    allOf (before ++ after) = allOf before ++ allOf after := by
  induction before with
  | nil => rfl
  | cons c rest ih => rw [List.cons_append, allOf, allOf, ih, List.append_assoc]

theorem allOf_singleton (c : Interception) : allOf [c] = allOf c.during ++ [c] := by
  rw [allOf, allOf, List.append_nil]
  cases c
  rw [all]

theorem afterAll_heap (calls : List Interception) (w : World) (h : Heap) :
    afterAll calls { w with heap := h } = { afterAll calls w with heap := h } := by
  unfold afterAll
  induction allOf calls generalizing w with
  | nil => rfl
  | cons c rest ih => rw [List.foldl_cons, List.foldl_cons, after_heap, ih]

theorem overflow_afterAll (calls : List Interception) (w : World) :
    (afterAll calls w).overflow = w.overflow := by
  unfold afterAll
  induction allOf calls generalizing w with
  | nil => rfl
  | cons c rest ih => rw [List.foldl_cons, ih, overflow_after]

theorem afterAll_append (before after : List Interception) (w : World) :
    afterAll (before ++ after) w = afterAll after (afterAll before w) := by
  rw [afterAll, allOf_append, List.foldl_append]
  rfl

/-- An interception comes after all that its capture caused. -/
theorem afterAll_singleton (c : Interception) (w : World) :
    afterAll [c] w = c.after (afterAll c.during w) := by
  rw [afterAll, allOf_singleton, List.foldl_append]
  rfl

end After

/-- An interceptor that obeys a rule made the interception, and its capture returned what is
listed. -/
structure Faithful (P : Nat → Nat → Prop) (c : Interception) : Prop where
  rule : P c.store c.maxDepth
  captured : ∀ samples, c.captured = .ok samples →
    ∃ w, c.items.mapM (captureSample c.answer c.maxDepth) c.before = (.ok samples, w)

end Interception

/-- From one watched world to another some interceptions ended, and outside the heap nothing
happened but what they do. If the run between them is finished, none that began is missing. -/
structure Accounts (P : Nat → Nat → Prop) (finished : Prop) (w w' : Watched)
    (calls : List Interception) : Prop where
  ended : w'.ended = w.ended ++ calls
  world : w'.world = { Interception.afterAll calls w.world with heap := w'.world.heap }
  begun : finished → w'.begun = w.begun + (Interception.allOf calls).length
  faithful : ∀ c ∈ Interception.allOf calls, c.Faithful P

namespace Accounts

variable {P : Nat → Nat → Prop} {finished finished' : Prop} {w w₁ w₂ : Watched}
  {calls more : List Interception}

/-- Nothing happened outside the heap. -/
theorem of_heap (h : w₁.world = { w.world with heap := w₁.world.heap }) (he : w₁.ended = w.ended)
    (hb : w₁.begun = w.begun) : Accounts P finished w w₁ [] where
  ended := by rw [he, List.append_nil]
  world := h
  begun := fun _ => hb
  faithful := fun _ hc => nomatch hc

theorem imp (h : Accounts P finished w w₁ calls) (ho : finished' → finished) :
    Accounts P finished' w w₁ calls :=
  ⟨h.ended, h.world, fun hfinished => h.begun (ho hfinished), h.faithful⟩

theorem trans (h : Accounts P finished w w₁ calls) (h' : Accounts P finished' w₁ w₂ more)
    (ho : finished' → finished) : Accounts P finished' w w₂ (calls ++ more) where
  ended := by rw [h'.ended, h.ended, List.append_assoc]
  world := by
    have hworld := h'.world
    rw [h.world, Interception.afterAll_heap] at hworld
    rw [Interception.afterAll_append]
    exact hworld
  begun := fun hfinished => by
    have hfirst := h.begun (ho hfinished)
    have hsecond := h'.begun hfinished
    rw [Interception.allOf_append, List.length_append]
    omega
  faithful := by
    rw [Interception.allOf_append]
    exact List.forall_mem_append.mpr ⟨h.faithful, h'.faithful⟩

theorem ended_close (h : Accounts P finished w.begin.2 w₁ calls) (c : Interception) :
    (w₁.close w.begin.1.1 c).ended = w.ended ++ [{ c with during := calls }] := by
  have htake : w₁.ended.take w.ended.length = w.ended := by
    rw [h.ended]
    exact List.take_left
  have hdrop : w₁.ended.drop w.ended.length = calls := by
    rw [h.ended]
    exact List.drop_left
  simp only [Watched.close, Watched.begin, htake, hdrop]

/-- An interception that begins and ends accounts for itself and for what its capture caused. -/
theorem close (h : Accounts P True w.begin.2 w₁ calls) {c : Interception}
    (hc : ({ c with during := calls } : Interception).Faithful P) :
    Accounts P finished w { w₁.close w.begin.1.1 c with world := c.after w₁.world }
      [{ c with during := calls }] where
  ended := h.ended_close c
  world := by
    have hw : w₁.world = { Interception.afterAll calls w.world with heap := w₁.world.heap } :=
      h.world
    rw [Interception.afterAll_singleton]
    show c.after w₁.world = { c.after (Interception.afterAll calls w.world) with
      heap := (c.after w₁.world).heap }
    rw [Interception.heap_after, ← Interception.after_heap, ← hw]
  begun := fun _ => by
    have hb : w₁.begun = w.begun + 1 + (Interception.allOf calls).length := h.begun trivial
    rw [Interception.allOf_singleton, List.length_append, List.length_singleton]
    show w₁.begun = w.begun + ((Interception.allOf calls).length + 1)
    omega
  faithful := by
    rw [Interception.allOf_singleton]
    exact List.forall_mem_append.mpr ⟨h.faithful, List.forall_mem_singleton.mpr hc⟩

end Accounts

/-! ## Watching a run -/

/-- From `w` the run `x` ends as `y` does, every interception on the way is accounted for, and all
interceptors then obey the rule `P`. A value that is returned has the property `Q`. -/
structure WatchesAt (P : Nat → Nat → Prop) {α : Type} (Q : α → Prop) (x : Watching α) (y : Host α)
    (w : Watched) : Prop where
  erase : y w.world = ((x w).1, (x w).2.world)
  accounts : ∃ calls, Accounts P ((x w).1 ≠ .exhausted) w (x w).2 calls
  heap : (x w).2.world.heap.Obeys P
  value : ∀ a, (x w).1 = .ok a → Q a

/-- The same from wherever the rule is obeyed. -/
def Watches (P : Nat → Nat → Prop) {α : Type} (Q : α → Prop) (x : Watching α) (y : Host α) : Prop :=
  ∀ w : Watched, w.world.heap.Obeys P → WatchesAt P Q x y w

/-- A run that changes nothing but the heap. -/
def Host.HeapOnly {α : Type} (x : Host α) : Prop :=
  ∀ w, (x w).2 = { w with heap := (x w).2.heap }

/-- A run that changes nothing but the heap, and keeps to a rule there. -/
structure Host.Keeps (P : Nat → Nat → Prop) {α : Type} (Q : α → Prop) (x : Host α) : Prop where
  heapOnly : x.HeapOnly
  heap : ∀ w, w.heap.Obeys P → (x w).2.heap.Obeys P
  value : ∀ w, w.heap.Obeys P → ∀ a, (x w).1 = .ok a → Q a

section Keeps

variable {P : Nat → Nat → Prop} {α : Type} {Q : α → Prop}

theorem keeps_pure {a : α} (ha : Q a) : Host.Keeps P Q (pure a) where
  heapOnly := fun _ => rfl
  heap := fun _ hw => hw
  value := fun _ _ b hb => by cases hb; exact ha

theorem keeps_fail (e : CallError) : Host.Keeps P Q (Run.fail e) where
  heapOnly := fun _ => rfl
  heap := fun _ hw => hw
  value := fun _ _ b hb => by cases hb

theorem keeps_panic (p : Payload) : Host.Keeps P Q (Run.panic p) where
  heapOnly := fun _ => rfl
  heap := fun _ hw => hw
  value := fun _ _ b hb => by cases hb

theorem keeps_inspect {f : World → α} (hf : ∀ w, w.heap.Obeys P → Q (f w)) :
    Host.Keeps P Q (Run.inspect f) where
  heapOnly := fun _ => rfl
  heap := fun _ hw => hw
  value := fun w hw b hb => by cases hb; exact hf w hw

theorem keeps_step {p : Heap → α × Heap} (hp : Building P Q p) :
    Host.Keeps P Q (Run.step (World.onHeap p)) where
  heapOnly := fun _ => rfl
  heap := fun w hw => (hp w.heap hw).2
  value := fun w hw b hb => by cases hb; exact (hp w.heap hw).1

theorem Host.Keeps.map {β : Type} {R : β → Prop} {x : Host α} {f : α → β} (hx : x.Keeps P Q)
    (hf : ∀ a, Q a → R (f a)) : Host.Keeps P R (x >>= fun a => pure (f a)) := by
  have hrun : ∀ w, (x >>= fun a => pure (f a)) w = ((x w).1.map f, (x w).2) := by
    intro w
    rw [Run.bind_apply]
    rcases x w with ⟨_ | _ | _ | _, _⟩ <;> rfl
  refine ⟨fun w => ?_, fun w hw => ?_, fun w hw b hb => ?_⟩
  · rw [hrun]
    exact hx.heapOnly w
  · rw [hrun]
    exact hx.heap w hw
  · rw [hrun] at hb
    have hvalue := hx.value w hw
    cases hxw : (x w).1 with
    | ok a =>
      rw [hxw] at hb
      cases hb
      exact hf a (hvalue a hxw)
    | _ =>
      rw [hxw] at hb
      cases hb

end Keeps

section Watches

variable {P : Nat → Nat → Prop} {α β : Type} {Q : α → Prop} {R : β → Prop} {x : Watching α}
  {y : Host α}

/-- What keeps to the heap intercepts nothing. -/
theorem watches_plain (h : y.Keeps P Q) : Watches P Q (Watching.plain y) y := fun w hw =>
  ⟨rfl, ⟨[], .of_heap (h.heapOnly w.world) rfl rfl⟩, h.heap w.world hw, h.value w.world hw⟩

theorem watches_pure {a : α} (ha : Q a) : Watches P Q (pure a) (pure a) := fun _ hw =>
  ⟨rfl, ⟨[], .of_heap rfl rfl rfl⟩, hw, fun _ h => by cases h; exact ha⟩

theorem watches_fail (e : CallError) : Watches P Q (Run.fail e : Watching α) (Run.fail e) :=
  fun _ hw => ⟨rfl, ⟨[], .of_heap rfl rfl rfl⟩, hw, fun _ h => by cases h⟩

theorem watches_panic (p : Payload) : Watches P Q (Run.panic p : Watching α) (Run.panic p) :=
  fun _ hw => ⟨rfl, ⟨[], .of_heap rfl rfl rfl⟩, hw, fun _ h => by cases h⟩

theorem watches_exhaust : Watches P Q (Run.exhaust : Watching α) Run.exhaust :=
  fun _ hw => ⟨rfl, ⟨[], .of_heap rfl rfl rfl⟩, hw, fun _ h => by cases h⟩

/-- What comes after a look at the world may depend on what is seen. -/
theorem watches_inspect {f : World → α} {k : α → Watching β} {l : α → Host β}
    (hk : ∀ w : Watched, w.world.heap.Obeys P →
      WatchesAt P R (k (f w.world)) (l (f w.world)) w) :
    Watches P R (Watching.plain (Run.inspect f) >>= k) (Run.inspect f >>= l) := by
  intro w hw
  obtain ⟨herase, haccounts, hheap, hvalue⟩ := hk w hw
  exact ⟨herase, haccounts, hheap, hvalue⟩

/-- In a sequence both parts account for their own interceptions. -/
theorem Watches.bind {k : α → Watching β} {l : α → Host β} (hx : Watches P Q x y)
    (hk : ∀ a, Q a → Watches P R (k a) (l a)) : Watches P R (x >>= k) (y >>= l) := by
  intro w hw
  obtain ⟨hy, ⟨calls, hcalls⟩, hheap, hvalue⟩ := hx w hw
  rcases hxw : x w with ⟨a | e | p | _, w₁⟩
  · rw [hxw] at hy hcalls hheap hvalue
    obtain ⟨hl, ⟨more, hmore⟩, hheap', hvalue'⟩ := hk a (hvalue a rfl) w₁ hheap
    have hbind : (x >>= k) w = k a w₁ := by rw [Run.bind_apply, hxw]
    refine ⟨?_, ⟨calls ++ more, ?_⟩, ?_, ?_⟩
    all_goals rw [hbind]
    · rw [Run.bind_apply, hy]
      exact hl
    · exact hcalls.trans hmore fun _ h => by cases h
    · exact hheap'
    · exact hvalue'
  all_goals
    rw [hxw] at hy hcalls hheap
    refine ⟨?_, ⟨calls, ?_⟩, ?_, ?_⟩
    · rw [Run.bind_apply, Run.bind_apply, hxw, hy]
    all_goals rw [Run.bind_apply, hxw]
    · exact hcalls.imp fun h h' => h (by cases h' <;> rfl)
    · exact hheap
    · exact fun b h => by cases h

theorem Watches.map {f : α → β} (hx : Watches P Q x y) (hf : ∀ a, Q a → R (f a)) :
    Watches P R (x >>= fun a => pure (f a)) (y >>= fun a => pure (f a)) :=
  hx.bind fun a ha => watches_pure (hf a ha)

theorem watches_mapM {k : α → Watching β} {l : α → Host β} {items : List α}
    (hk : ∀ a ∈ items, Watches P R (k a) (l a)) :
    Watches P (fun bs => ∀ b ∈ bs, R b) (items.mapM k) (items.mapM l) := by
  induction items with
  | nil => exact watches_pure fun b hb => nomatch hb
  | cons a rest ih =>
    obtain ⟨ha, hrest⟩ := List.forall_mem_cons.mp hk
    rw [List.mapM_cons, List.mapM_cons]
    exact ha.bind fun b hb =>
      (ih hrest).map fun bs hbs => List.forall_mem_cons.mpr ⟨hb, hbs⟩

theorem watches_catchError (hx : Watches P Q x y) :
    Watches P (fun r => ∀ a, r = .ok a → Q a) (Run.catchError x) (Run.catchError y) := by
  intro w hw
  obtain ⟨hy, ⟨calls, hcalls⟩, hheap, hvalue⟩ := hx w hw
  rcases hxw : x w with ⟨a | e | p | _, w₁⟩
  all_goals
    rw [hxw] at hy hcalls hheap hvalue
    refine ⟨by simp only [Run.catchError, hxw, hy], ⟨calls, ?_⟩, ?_, fun r hr b hb => ?_⟩
    · simp only [Run.catchError, hxw]
      exact hcalls.imp fun h h' => h (by cases h' <;> rfl)
    · simp only [Run.catchError, hxw]
      exact hheap
    simp only [Run.catchError, hxw] at hr
    cases hr <;> cases hb
  exact hvalue a rfl

theorem watches_catchPanic (hx : Watches P Q x y) :
    Watches P (fun r => ∀ a, r = .ok a → Q a) (Run.catchPanic x) (Run.catchPanic y) := by
  intro w hw
  obtain ⟨hy, ⟨calls, hcalls⟩, hheap, hvalue⟩ := hx w hw
  rcases hxw : x w with ⟨a | e | p | _, w₁⟩
  all_goals
    rw [hxw] at hy hcalls hheap hvalue
    refine ⟨by simp only [Run.catchPanic, hxw, hy], ⟨calls, ?_⟩, ?_, fun r hr b hb => ?_⟩
    · simp only [Run.catchPanic, hxw]
      exact hcalls.imp fun h h' => h (by cases h' <;> rfl)
    · simp only [Run.catchPanic, hxw]
      exact hheap
    simp only [Run.catchPanic, hxw] at hr
    cases hr <;> cases hb
  exact hvalue a rfl

end Watches

/-! ## The functions that call -/

section Calls

variable {P : Nat → Nat → Prop} {wcall : Watch.Calling} {call : Calling} {wans : Watch.Answering}
  {ans : Answering} {args : Arguments}

/-- Calls are watched wherever they are made, and return what obeys the rule. -/
def CallsWatched (P : Nat → Nat → Prop) (wcall : Watch.Calling) (call : Calling) : Prop :=
  ∀ f args, f.Obeys P → args.Obeys P → Watches P (Value.Obeys P) (wcall f args) (call f args)

theorem watches_callValue (hc : CallsWatched P wcall call) {v : Value} (hv : v.Obeys P)
    (ha : args.Obeys P) :
    Watches P (Value.Obeys P) (Watch.callValue wcall v args) (callValue call v args) := by
  cases v with
  | function f => exact hc f args hv ha
  | _ => exact watches_fail _

theorem watches_callVariable (hc : CallsWatched P wcall call) (name : String)
    (ha : args.Obeys P) :
    Watches P (Value.Obeys P) (Watch.callVariable wcall name args)
      (callVariable call name args) := by
  refine watches_inspect fun w hw => ?_
  cases hv : w.world.heap.lookup? name with
  | none => exact watches_fail _ w hw
  | some v => exact watches_callValue hc (hw.lookup? hv) ha w hw

/-- Objects answer with attributes that obey the rule if their own do, and are watched when they
do. -/
def AnswersWatched (P : Nat → Nat → Prop) (wans : Watch.Answering) (ans : Answering) : Prop :=
  ∀ o : Object, o.attributes.Obeys P →
    Watches P (fun attributes? => ∀ entries, attributes? = some entries → ObeyNamed P entries)
      (wans o) (ans o)

theorem watches_answerBy (hc : CallsWatched P wcall call) :
    AnswersWatched P (Watch.answerBy wcall) (answerBy call) := by
  intro o ho
  unfold Watch.answerBy answerBy
  cases hattributes : o.attributes with
  | absent => exact watches_pure fun entries h => nomatch h
  | listed entries =>
    rw [hattributes] at ho
    exact watches_pure fun entries' h => Option.some.inj h ▸ ho
  | panics payload => exact watches_panic payload
  | calls name arguments =>
    rw [hattributes] at ho
    have hargs : Arguments.Obeys P { positional := arguments.map Prod.snd, keywords := [] } := by
      refine ⟨fun v hv => ?_, fun e he => nomatch he⟩
      obtain ⟨e, he, rfl⟩ := List.mem_map.mp hv
      exact ho e he
    refine (watches_catchError (watches_callVariable hc name hargs)).bind fun result hresult => ?_
    cases result with
    | ok v =>
      refine watches_pure fun entries h => ?_
      rw [← Option.some.inj h]
      exact List.forall_mem_singleton.mpr (hresult v rfl)
    | error e => exact watches_pure fun entries h => nomatch h

theorem Arguments.Obeys.first (ha : args.Obeys P) {v : Value} (hv : args.first = some v) :
    v.Obeys P := ha.positional v (List.mem_of_head? hv)

theorem Arguments.Obeys.getD_first (ha : args.Obeys P) : (args.first.getD .none).Obeys P :=
  Value.obeys_getD fun _ hv => ha.first hv

theorem Arguments.Obeys.prepend (ha : args.Obeys P) {v : Value} (hv : v.Obeys P) :
    (args.prepend v).Obeys P := ⟨List.forall_mem_cons.mpr ⟨hv, ha.positional⟩, ha.keywords⟩

theorem building_collectArguments (ha : args.Obeys P) :
    Building P (Value.Obeys P) (collectArguments args) := by
  have hkeywords : ∀ e ∈ (Entries.sorted args.keywords).map fun e => (Value.str e.1, e.2),
      e.1.Obeys P ∧ e.2.Obeys P := by
    intro e he
    obtain ⟨k, hk, rfl⟩ := List.mem_map.mp he
    exact ⟨trivial, ha.keywords.sorted k hk⟩
  intro h hh
  obtain ⟨hlist, hh⟩ := Building.newList ha.positional h hh
  obtain ⟨hdict, hh⟩ := Building.newDict hkeywords _ hh
  exact ⟨⟨hlist, hdict, trivial⟩, hh⟩

theorem keeps_changeFirst {change : Value → Heap → Bool × Heap}
    (hchange : ∀ target, Building P (fun _ => True) (change target)) (args : Arguments) :
    Host.Keeps P (Value.Obeys P) (changeFirst change args) := by
  unfold changeFirst
  cases args.positional with
  | nil => exact keeps_pure trivial
  | cons target rest => exact (keeps_step (hchange target)).map fun _ _ => trivial

theorem keeps_bindFirst (ha : args.Obeys P) :
    Host.Keeps P (Value.Obeys P) (bindFirst args) := by
  unfold bindFirst
  split
  next f hf =>
    have htarget : f.Obeys P := ha.positional (.function f) (List.mem_of_head? hf)
    have hreceiver : ∀ v, args.positional[1]? = some v → v.Obeys P := fun v hv =>
      ha.positional v (List.mem_of_getElem? hv)
    exact (keeps_step (Building.bindTo htarget hreceiver)).map fun g hg => hg
  next => exact keeps_fail _

theorem keeps_assignFirst (name : String) (ha : args.Obeys P) :
    Host.Keeps P (Value.Obeys P) (assignFirst name args) where
  heapOnly := fun _ => rfl
  heap := fun _ hw => hw.assign name ha.getD_first
  value := fun _ _ _ h => by cases h; exact ha.getD_first

theorem watches_runBody (hc : CallsWatched P wcall call) {body : Body Value}
    (hb : Callable.ObeysBody P body) (ha : args.Obeys P) :
    Watches P (Value.Obeys P) (Watch.runBody wcall body args) (runBody call body args) := by
  induction body generalizing args with
  | nothing | count | sum names => exact watches_plain (keeps_pure trivial)
  | echo => exact watches_plain (keeps_pure ha.getD_first)
  | argument index =>
    have hargument : ((args.positional[index]?).getD .none).Obeys P :=
      Value.obeys_getD fun v hv => ha.positional v (List.mem_of_getElem? hv)
    exact watches_plain (keeps_pure hargument)
  | collect => exact watches_plain (keeps_step (building_collectArguments ha))
  | give v => exact watches_plain (keeps_pure hb)
  | fail text => exact watches_plain (keeps_fail _)
  | panic text => exact watches_plain (keeps_panic _)
  | append item => exact watches_plain (keeps_changeFirst (fun _ => Building.push hb) args)
  | insert key item =>
    have hkey : (Value.str key).Obeys P := trivial
    exact watches_plain (keeps_changeFirst (fun _ => Building.insert hkey hb) args)
  | item index =>
    refine watches_plain (keeps_inspect fun w hw => Value.obeys_getD fun v hv => ?_)
    obtain ⟨target, htarget, hv⟩ := Option.bind_eq_some_iff.mp hv
    exact hw.item? (ha.first htarget) hv
  | entry key =>
    refine watches_plain (keeps_inspect fun w hw => Value.obeys_getD fun v hv => ?_)
    obtain ⟨target, -, hv⟩ := Option.bind_eq_some_iff.mp hv
    exact hw.get? hv
  | assign name => exact watches_plain (keeps_assignFirst name ha)
  | call name => exact watches_callVariable hc name ha
  | apply =>
    unfold Watch.runBody runBody
    have hpositional := ha.positional
    cases hargs : args.positional with
    | nil => exact watches_pure trivial
    | cons f rest =>
      rw [hargs] at hpositional
      obtain ⟨hf, hrest⟩ := List.forall_mem_cons.mp hpositional
      exact watches_callValue hc hf ⟨hrest, ha.keywords⟩
  | bind => exact watches_plain (keeps_bindFirst ha)
  | andThen first second ih₁ ih₂ => exact (ih₁ hb.1 ha).bind fun _ _ => ih₂ hb.2 ha
  | pipe first second ih₁ ih₂ =>
    exact (ih₁ hb.1 ha).bind fun v hv => ih₂ hb.2 (ha.prepend hv)
  | recover first second ih₁ ih₂ =>
    refine (watches_catchError (ih₁ hb.1 ha)).bind fun result hresult => ?_
    cases result with
    | ok v => exact watches_pure (hresult v rfl)
    | error e => exact ih₂ hb.2 ha
  | branch test yes no ih₁ ih₂ ih₃ =>
    refine (ih₁ hb.1 ha).bind fun v hv => ?_
    split
    next => exact ih₂ hb.2.1 ha
    next => exact ih₃ hb.2.2 ha

/-! ## Captures -/

theorem keeps_renderKey (key : Value) : Host.Keeps P (fun _ => True) (renderKey key) where
  heapOnly := by
    intro w
    unfold renderKey
    simp only [Run.bind_apply, Run.inspect]
    cases w.heap.keyText key <;> rfl
  heap := by
    intro w hw
    unfold renderKey
    simp only [Run.bind_apply, Run.inspect]
    cases w.heap.keyText key <;> exact hw
  value := fun _ _ _ _ => trivial

theorem watches_captureNode (ha : AnswersWatched P wans ans) {winner : Value → Watching Json}
    {inner : Value → Host Json}
    (hi : ∀ v : Value, v.Obeys P → Watches P (fun _ => True) (winner v) (inner v)) {v : Value}
    (hv : v.Obeys P) :
    Watches P (fun _ => True) (Watch.captureNode wans winner v) (captureNode ans inner v) := by
  cases v with
  | list cell =>
    refine watches_inspect fun w hw => ?_
    exact (watches_mapM fun item hitem => hi item (hw.listAt cell item hitem)).map
      (fun _ _ => trivial) w hw
  | tuple items =>
    have hitems := Value.obeyItems_iff.mp hv
    exact (watches_mapM fun item hitem => hi item (hitems item hitem)).map fun _ _ => trivial
  | dict cell =>
    refine watches_inspect fun w hw => ?_
    refine (watches_mapM (R := fun _ => True) fun e he => ?_).map (fun _ _ => trivial) w hw
    exact (watches_plain (keeps_renderKey e.1)).bind fun key _ =>
      (hi e.2 (hw.dictAt cell e he).2).map fun _ _ => trivial
  | object cell =>
    refine watches_inspect fun w hw => ?_
    cases ho : w.world.heap.object? cell with
    | none => exact watches_pure trivial w hw
    | some o =>
      dsimp only
      split
      next => exact watches_pure trivial w hw
      next =>
        refine ((ha o (hw.object? ho)).bind fun attributes? hattributes => ?_) w hw
        cases attributes? with
        | none => exact watches_pure trivial
        | some attributes =>
          refine (watches_mapM (R := fun _ => True) fun a ha => ?_).map fun _ _ => trivial
          have hvalue : a.2.Obeys P := hattributes attributes rfl a (List.mem_filter.mp ha).1
          exact (hi a.2 hvalue).map fun _ _ => trivial
  | _ => exact watches_plain (keeps_pure trivial)

theorem watches_captureLevels (ha : AnswersWatched P wans ans) (levels : Nat) {v : Value}
    (hv : v.Obeys P) :
    Watches P (fun _ => True) (Watch.captureLevels wans levels v) (captureLevels ans levels v) := by
  induction levels generalizing v with
  | zero => exact watches_plain (keeps_pure trivial)
  | succ levels ih => exact watches_captureNode ha (fun _ => ih) hv

theorem watches_captureArguments (ha : AnswersWatched P wans ans) (maxDepth : Nat)
    (hargs : args.Obeys P) (paramNames : List String) :
    Watches P (fun _ => True) (Watch.captureArguments wans maxDepth args paramNames)
      (captureArguments ans maxDepth args paramNames) := by
  have hsample : ∀ v : Value × Nat, v.1.Obeys P → Watches P (fun _ => True)
      (Watch.captureSample wans maxDepth v) (captureSample ans maxDepth v) := fun v hv =>
    (watches_captureLevels ha _ hv).map fun _ _ => trivial
  refine (watches_mapM fun v hv => hsample v ?_).bind fun positional _ =>
    (watches_mapM fun v hv => hsample v ?_).map fun _ _ => trivial
  · exact hargs.positional v.1 (List.fst_mem_of_mem_zipIdx hv)
  · obtain ⟨name, -, hname⟩ := List.mem_filterMap.mp hv
    obtain ⟨value, hvalue, rfl⟩ := Option.map_eq_some_iff.mp hname
    exact hargs.keywords.get? hvalue

theorem captureArguments_eq (answer : Answering) (maxDepth : Nat) (args : Arguments)
    (paramNames : List String) : captureArguments answer maxDepth args paramNames =
      (args.positional.zipIdx ++ namedArguments args paramNames).mapM
        (captureSample answer maxDepth) := by
  rw [List.mapM_append]
  rfl

/-- Once the capture has returned or panicked, the interception is listed and settled. -/
theorem watch_recordCall {label : String} {paramNames : List String} {store maxDepth : Nat}
    {captured : Except Payload (List Sample)} {w w₁ : Watched}
    (h : Run.catchPanic (Watch.captureArguments (Watch.answerBy wcall) maxDepth args paramNames)
      w.begin.2 = (.ok captured, w₁)) :
    let c : Interception :=
      { store, label, paramNames, maxDepth, args, captured, before := w.world
        answer := answerBy call
        during := [] }
    Watch.recordCall call wcall label paramNames store maxDepth args w =
      ((c.settle w₁.world).1, { w₁.close w.begin.1.1 c with world := c.after w₁.world }) := by
  simp only [Watch.recordCall, Run.bind_apply, Run.step, h, Run.update, Watching.plain]
  rfl

/-- An interception is listed once its capture has returned or panicked, behind those that the
capture caused. -/
theorem watches_recordCall (hc : CallsWatched P wcall call) (label : String)
    (paramNames : List String) {store maxDepth : Nat} (hrule : P store maxDepth)
    (ha : args.Obeys P) :
    Watches P (fun _ => True)
      (Watch.recordCall call wcall label paramNames store maxDepth args)
      (recordCall call label paramNames store maxDepth args) := by
  intro w hw
  obtain ⟨hy, ⟨calls, hcalls⟩, hheap, -⟩ := watches_catchPanic
    (watches_captureArguments (watches_answerBy hc) maxDepth ha paramNames) w.begin.2 hw
  have hends := Run.catchPanic_ends
    (unfailing_captureArguments (unfailing_answerBy call) maxDepth args paramNames) w.begin.2.world
  rw [hy] at hends
  rcases hrun : Run.catchPanic (Watch.captureArguments (Watch.answerBy wcall) maxDepth args
    paramNames) w.begin.2 with ⟨outcome, w₁⟩
  rw [hrun] at hy hcalls hends hheap
  have hworld : w.begin.2.world = w.world := rfl
  rw [hworld] at hy
  rcases hends with ⟨captured, rfl⟩ | rfl
  · let c : Interception :=
      { store, label, paramNames, maxDepth, args, captured, before := w.world
        answer := answerBy call
        during := calls }
    have hfaithful : c.Faithful P := by
      refine ⟨hrule, fun samples hsamples => ⟨w₁.world, ?_⟩⟩
      have hsamples : captured = .ok samples := hsamples
      subst hsamples
      have hcapture := Run.of_catchPanic hy
      rw [captureArguments_eq] at hcapture
      exact hcapture
    refine ⟨?_, ⟨[c], ?_⟩, ?_, fun _ _ => trivial⟩
    all_goals rw [watch_recordCall hrun]
    · simp only [recordCall, Run.bind_apply, hy]
      cases captured <;> rfl
    · exact (hcalls.imp fun _ h => by cases h).close hfaithful
    · show (Interception.after _ w₁.world).heap.Obeys P
      rw [Interception.heap_after]
      exact hheap
  · have hwatch : Watch.recordCall call wcall label paramNames store maxDepth args w =
        (.exhausted, w₁) := by
      simp only [Watch.recordCall, Run.bind_apply, Run.step, hrun]
    refine ⟨?_, ⟨calls, ?_⟩, ?_, fun _ _ => trivial⟩
    all_goals rw [hwatch]
    · simp only [recordCall, Run.bind_apply, hy]
    · exact ⟨hcalls.ended, hcalls.world, fun h => absurd rfl h, hcalls.faithful⟩
    · exact hheap

/-! ## Calls -/

theorem watches_invokeBy (hc : CallsWatched P wcall call) :
    ∀ (f : Callable) {args : Arguments}, f.Obeys P → args.Obeys P →
      Watches P (Value.Obeys P) (Watch.invokeBy call wcall f args) (invokeBy call f args)
  | .native _ _ _, _, hf, ha => watches_runBody hc hf ha
  | .bound _ _ target, _, hf, ha => watches_invokeBy hc target hf.2 (ha.prepend hf.1)
  | .interceptor _ label paramNames _ _ target, _, hf, ha =>
    (watches_recordCall hc label paramNames hf.1 ha).bind fun _ _ =>
      watches_invokeBy hc target hf.2 ha

/-- Every call is watched, whatever it calls. -/
theorem watches_invoke (fuel : Nat) : CallsWatched P (Watch.invoke fuel) (invoke fuel) := by
  induction fuel with
  | zero => exact fun f _ hf ha => watches_invokeBy (fun _ _ _ _ => watches_exhaust) f hf ha
  | succ fuel ih => exact fun f _ hf ha => watches_invokeBy ih f hf ha

end Calls

end CallSampler
