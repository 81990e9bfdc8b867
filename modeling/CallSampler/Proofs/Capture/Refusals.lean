import CallSampler.Proofs.Capture.Blanking

/-!
# Captures of objects that refuse to describe themselves

Where every object answers and none panics, a capture returns unless a key that it renders is
refused: a key has no marker, so the refusal unwinds (`captureAt_returns`). A key is rendered where
the capture of a value comes to a dict and to an entry of it (`RendersKey`), and what panics there
panics all the way up (`Comes.panics`). Objects may change the world when they answer, so the
invariant of a capture is that its world is one that answers lead to (`Answering.Leads`), in which
nothing but a refusal can go wrong.
-/

namespace CallSampler

/-! ## Item by item -/

namespace Run

variable {σ ε α β : Type} {f : α → Run σ ε β} {xs : List α} {ys : List β} {s s' : σ}

/-- The run returns, for each item in turn, what stands at the same position. -/
inductive Each (f : α → Run σ ε β) : List α → σ → List β → σ → Prop
  | nil (s : σ) : Each f [] s [] s
  | cons {x : α} {xs : List α} {y : β} {ys : List β} {s s₁ s' : σ} (first : f x s = (.ok y, s₁))
      (rest : Each f xs s₁ ys s') : Each f (x :: xs) s (y :: ys) s'

theorem each_of_mapM (h : xs.mapM f s = (.ok ys, s')) : Each f xs s ys s' := by
  induction xs generalizing s ys with
  | nil =>
    cases h
    exact .nil _
  | cons x xs ih =>
    rw [List.mapM_cons] at h
    obtain ⟨y, s₁, hy, h⟩ := Run.bind_eq_ok h
    obtain ⟨zs, s₂, hzs, h⟩ := Run.bind_eq_ok h
    cases h
    exact .cons hy (ih hzs)

theorem Each.length_eq (h : Each f xs s ys s') : ys.length = xs.length := by
  induction h with
  | nil => rfl
  | cons _ _ ih => exact congrArg Nat.succ ih

/-- What panics once the items before it are done panics in the middle of them all. -/
theorem Each.panics {before after : List α} {x : α} {s₁ : σ} {p : Payload}
    (h : Each f before s ys s₁) (hx : f x s₁ = (.panic p, s')) :
    (before ++ x :: after).mapM f s = (.panic p, s') := by
  induction h with
  | nil => rw [List.nil_append, List.mapM_cons, bind_apply, hx]
  | cons first _ ih => simp only [List.cons_append, List.mapM_cons, bind_apply, first, ih hx]

end Run

/-! ## Runs that return unless something bad happens -/

namespace Run

variable {σ ε α β : Type} {good : σ → Prop} {bad bad' : Prop} {s : σ} {x : Run σ ε α}

/-- The run returns in a good state, or else something bad is the case. -/
def ReturnsUnless (good : σ → Prop) (bad : Prop) (x : Run σ ε α) (s : σ) : Prop :=
  (∃ a s', x s = (.ok a, s') ∧ good s') ∨ bad

theorem returnsUnless_pure (hs : good s) (a : α) :
    (pure a : Run σ ε α).ReturnsUnless good bad s :=
  Or.inl ⟨a, s, rfl, hs⟩

theorem ReturnsUnless.mono (hx : x.ReturnsUnless good bad s) (h : bad → bad') :
    x.ReturnsUnless good bad' s := hx.imp_right h

theorem ReturnsUnless.bind {k : α → Run σ ε β} (hx : x.ReturnsUnless good bad s)
    (hk : ∀ a s', x s = (.ok a, s') → good s' → (k a).ReturnsUnless good bad s') :
    (x >>= k).ReturnsUnless good bad s := by
  obtain ⟨a, s', ha, hs'⟩ | hbad := hx
  · have hrest := hk a s' ha hs'
    unfold ReturnsUnless
    rw [bind_apply, ha]
    exact hrest
  · exact Or.inr hbad

theorem returnsUnless_inspect {f : σ → α} {k : α → Run σ ε β}
    (hk : (k (f s)).ReturnsUnless good bad s) :
    (inspect f >>= k).ReturnsUnless good bad s := hk

/-- An item is only come to once those before it returned. -/
theorem returnsUnless_mapM {k : α → Run σ ε β} {items : List α} (hs : good s)
    (hk : ∀ before a after bs s', items = before ++ a :: after → Each k before s bs s' →
      good s' → (k a).ReturnsUnless good bad s') :
    (items.mapM k).ReturnsUnless good bad s := by
  induction items generalizing s with
  | nil => exact returnsUnless_pure hs []
  | cons a rest ih =>
    rw [List.mapM_cons]
    refine (hk [] a rest [] s rfl (.nil s) hs).bind fun b s₁ hb hs₁ => ?_
    have hrest : (rest.mapM k).ReturnsUnless good bad s₁ :=
      ih hs₁ fun before a' after bs s' hsplit hbefore hs' =>
        hk (a :: before) a' after (b :: bs) s' (by rw [hsplit, List.cons_append])
          (.cons hb hbefore) hs'
    exact hrest.bind fun bs s₂ _ hs₂ => returnsUnless_pure hs₂ (b :: bs)

end Run

/-! ## What a text can fail with -/

section Texts

variable {ε α β : Type}

/-- Whatever the computation fails with has a property. -/
def FailsOnly (P : ε → Prop) (x : Except ε α) : Prop := ∀ e, x = .error e → P e

theorem FailsOnly.bind {P : ε → Prop} {x : Except ε α} {k : α → Except ε β} (hx : FailsOnly P x)
    (hk : ∀ a, FailsOnly P (k a)) : FailsOnly P (x >>= k) := by
  intro e he
  cases x with
  | error e' =>
    cases he
    exact hx e rfl
  | ok a => exact hk a e he

theorem failsOnly_ok {P : ε → Prop} (a : α) : FailsOnly P (.ok a : Except ε α) :=
  fun _ he => by cases he

theorem failsOnly_mapM {P : ε → Prop} {k : α → Except ε β} (hk : ∀ a, FailsOnly P (k a))
    (items : List α) : FailsOnly P (items.mapM k) := by
  induction items with
  | nil => exact failsOnly_ok []
  | cons a rest ih =>
    rw [List.mapM_cons]
    exact (hk a).bind fun b => ih.bind fun bs => failsOnly_ok (b :: bs)

end Texts

/-- A description refused, and none panicked. -/
def RenderFault.IsRefusal : RenderFault → Prop
  | .refused _ => True
  | .panicked _ => False

def Object.PanicsNever (o : Object) : Prop := ∀ message, o.description ≠ .panics message

theorem failsOnly_describe {o : Object} (ho : o.PanicsNever) :
    FailsOnly RenderFault.IsRefusal o.describe := by
  unfold Object.describe
  split
  next => exact failsOnly_ok _
  next => exact failsOnly_ok _
  next => rintro _ ⟨⟩; trivial
  next message h => exact absurd h (ho message)

theorem failsOnly_render_object {h : Heap}
    (hd : ∀ cell o, h.object? cell = some o → o.PanicsNever) (levels : Nat) (quoted : Bool)
    (cell : Nat) : FailsOnly RenderFault.IsRefusal (h.render levels quoted (.object cell)) := by
  rw [Heap.render]
  cases ho : h.object? cell with
  | none => exact failsOnly_ok _
  | some o => exact failsOnly_describe (hd cell o ho)

/-- Where no description panics, no display form does. -/
theorem failsOnly_render {h : Heap} (hd : ∀ cell o, h.object? cell = some o → o.PanicsNever)
    (levels : Nat) (quoted : Bool) (v : Value) :
    FailsOnly RenderFault.IsRefusal (h.render levels quoted v) := by
  induction levels generalizing quoted v with
  | zero =>
    cases v with
    | object cell => exact failsOnly_render_object hd _ quoted cell
    | _ => exact failsOnly_ok _
  | succ levels ih =>
    cases v with
    | object cell => exact failsOnly_render_object hd _ quoted cell
    | list cell =>
      rw [Heap.render]
      exact (failsOnly_mapM (ih true) _).bind fun _ => failsOnly_ok _
    | tuple items =>
      rw [Heap.render]
      exact (failsOnly_mapM (ih true) _).bind fun _ => failsOnly_ok _
    | dict cell =>
      rw [Heap.render]
      refine (failsOnly_mapM (fun e => ?_) _).bind fun _ => failsOnly_ok _
      exact (ih true e.1).bind fun _ => (ih true e.2).bind fun _ => failsOnly_ok _
    | _ => exact failsOnly_ok _

theorem failsOnly_keyText {h : Heap} (hd : ∀ cell o, h.object? cell = some o → o.PanicsNever)
    (key : Value) : FailsOnly RenderFault.IsRefusal (h.keyText key) := by
  unfold Heap.keyText
  split
  next => exact failsOnly_ok _
  next => exact failsOnly_render hd _ _ _

/-! ## Captures that return -/

/-- A world that comes up when objects of a world answer, one after the other. -/
inductive Answering.Leads (answer : Answering) (w : World) : World → Prop
  | start : Leads answer w w
  | answered {w₁ w₂ : World} {cell : Nat} {o : Object}
      {attributes? : Option (List (String × Value))} (h : Leads answer w w₁)
      (ho : w₁.heap.object? cell = some o) (ha : answer o w₁ = (.ok attributes?, w₂)) :
      Leads answer w w₂

/-- In every world that comes up, objects answer and describe themselves without a panic. They may
change the world when they answer, and a description may refuse after it wrote something. -/
structure Answering.Returns (answer : Answering) (w : World) : Prop where
  answers : ∀ w₁, answer.Leads w w₁ → ∀ cell o, w₁.heap.object? cell = some o →
    o.callable = false → ∃ attributes? w₂, answer o w₁ = (.ok attributes?, w₂)
  describes : ∀ w₁, answer.Leads w w₁ → ∀ cell o, w₁.heap.object? cell = some o → o.PanicsNever

/-- It is enough that the objects of one world answer and leave it alone. -/
theorem Answering.returns_of_still {answer : Answering} {w : World}
    (ha : ∀ cell o, w.heap.object? cell = some o →
      ∃ attributes?, answer o w = (.ok attributes?, w))
    (hd : ∀ cell o, w.heap.object? cell = some o → o.PanicsNever) : answer.Returns w := by
  have hleads : ∀ w₁, answer.Leads w w₁ → w₁ = w := by
    intro w₁ hw₁
    induction hw₁ with
    | start => rfl
    | answered _ ho hanswer ih =>
      subst ih
      obtain ⟨attributes?, hstill⟩ := ha _ _ ho
      exact (Prod.mk.inj (hanswer.symm.trans hstill)).2
  refine ⟨fun w₁ hw₁ cell o ho _ => ?_, fun w₁ hw₁ => ?_⟩
  · rw [hleads w₁ hw₁] at ho ⊢
    obtain ⟨attributes?, hstill⟩ := ha cell o ho
    exact ⟨attributes?, w, hstill⟩
  · rw [hleads w₁ hw₁]
    exact hd

/-! ## Where a capture comes to -/

/-- The items of a list or tuple. -/
def Heap.sequence? (h : Heap) : Value → Option (List Value)
  | .list cell => some (h.listAt cell)
  | .tuple items => some items
  | _ => none

/-- The capture of a value that goes so many levels deep comes to that of another value, with so
many levels left and in the world then: what stands before it on each level is captured already. -/
inductive Comes (answer : Answering) : Nat → Value → World → Nat → Value → World → Prop
  | refl (levels : Nat) (v : Value) (w : World) : Comes answer levels v w levels v w
  | item {levels n : Nat} {v u x : Value} {w w₁ w' : World} {before after : List Value}
      {images : List Json} (hitems : w.heap.sequence? v = some (before ++ u :: after))
      (hbefore : Run.Each (captureLevels answer levels) before w images w₁)
      (h : Comes answer levels u w₁ n x w') : Comes answer (levels + 1) v w n x w'
  | entry {levels n cell : Nat} {x : Value} {w w₁ w' : World} {e : Value × Value}
      {before after : List (Value × Value)} {images : List (String × Json)} {text : String}
      (hentries : w.heap.dictAt cell = before ++ e :: after)
      (hbefore : Run.Each (captureEntry (captureLevels answer levels)) before w images w₁)
      (hkey : w₁.heap.keyText e.1 = .ok text) (h : Comes answer levels e.2 w₁ n x w') :
      Comes answer (levels + 1) (.dict cell) w n x w'
  | field {levels n cell : Nat} {x : Value} {w w₁ w₂ w' : World} {o : Object}
      {attributes : List (String × Value)} {a : String × Value}
      {before after : List (String × Value)} {images : List (String × Json)}
      (ho : w.heap.object? cell = some o) (hc : o.callable = false)
      (ha : answer o w = (.ok (some attributes), w₁))
      (hattributes : attributes.filter (fun a => isPublic a.1) = before ++ a :: after)
      (hbefore : Run.Each (captureAttribute (captureLevels answer levels)) before w₁ images w₂)
      (h : Comes answer levels a.2 w₂ n x w') :
      Comes answer (levels + 1) (.object cell) w n x w'

/-- The capture of a value renders a key in the world then: it comes to a dict, and there to the
entry with the key. -/
inductive RendersKey (answer : Answering) (levels : Nat) (v : Value) (w : World) :
    Value → World → Prop
  | entry {n cell : Nat} {w₁ w₂ : World} {e : Value × Value} {before after : List (Value × Value)}
      {images : List (String × Json)} (hdict : Comes answer levels v w (n + 1) (.dict cell) w₁)
      (hentries : w₁.heap.dictAt cell = before ++ e :: after)
      (hbefore : Run.Each (captureEntry (captureLevels answer n)) before w₁ images w₂) :
      RendersKey answer levels v w e.1 w₂

/-- A key that the capture of a value renders has no text, because a description in it refuses. -/
def RefusesKey (answer : Answering) (levels : Nat) (v : Value) (w w' : World) : Prop :=
  ∃ key written, RendersKey answer levels v w key w' ∧
    w'.heap.keyText key = .error (.refused written)

section Coming

variable {answer : Answering} {levels n : Nat} {v x : Value} {w w' w₁ : World}

/-- The items of a list or tuple are captured one after the other. -/
theorem captureNode_sequence {inner : Value → Host Json} {items : List Value}
    (hitems : w.heap.sequence? v = some items) : captureNode answer inner v w =
      (items.mapM inner >>= fun images => pure (.array images)) w := by
  cases v with
  | list cell =>
    cases hitems
    rfl
  | tuple items =>
    cases hitems
    rfl
  | _ => cases hitems

/-- A panic that a capture comes to is its own. -/
theorem Comes.panics {p : Payload} (h : Comes answer levels v w n x w₁)
    (hx : captureLevels answer n x w₁ = (.panic p, w')) :
    captureLevels answer levels v w = (.panic p, w') := by
  induction h with
  | refl => exact hx
  | item hitems hbefore _ ih =>
    rw [captureLevels_succ, captureNode_sequence hitems, Run.bind_apply, hbefore.panics (ih hx)]
  | entry hentries hbefore hkey _ ih =>
    have hentry := ih hx
    rw [captureLevels_succ, captureNode_dict, hentries, Run.bind_apply, hbefore.panics]
    simp only [captureEntry, renderKey, Run.bind_apply, Run.inspect, hkey, Run.pure_apply, hentry]
  | field ho hc ha hattributes hbefore _ ih =>
    have hattribute := ih hx
    rw [captureLevels_succ, captureNode_object ho hc, Run.bind_apply, ha]
    dsimp only
    rw [hattributes, Run.bind_apply, hbefore.panics]
    simp only [captureAttribute, Run.bind_apply, hattribute]

/-- A refused key panics. -/
theorem RefusesKey.panics (h : RefusesKey answer levels v w w') :
    captureLevels answer levels v w = (.panic (.text refusalMessage), w') := by
  obtain ⟨key, written, hkey, htext⟩ := h
  cases hkey with
  | entry hdict hentries hbefore =>
    refine hdict.panics ?_
    rw [captureLevels_succ, captureNode_dict, hentries, Run.bind_apply, hbefore.panics]
    simp only [captureEntry, renderKey, Run.bind_apply, Run.inspect, htext]
    rfl

/-- What is refused further down is refused here. -/
theorem RefusesKey.up (h : RefusesKey answer n x w₁ w')
    (hup : ∀ {m y w₂}, Comes answer n x w₁ m y w₂ → Comes answer levels v w m y w₂) :
    RefusesKey answer levels v w w' := by
  obtain ⟨key, written, hkey, htext⟩ := h
  cases hkey with
  | entry hdict hentries hbefore =>
    exact ⟨_, written, .entry (hup hdict) hentries hbefore, htext⟩

end Coming

section Returning

variable {answer : Answering} {w₀ w : World}

theorem Answering.Returns.keyText (h : answer.Returns w₀) (hw : answer.Leads w₀ w) (key : Value) :
    (∃ text, w.heap.keyText key = .ok text) ∨
      ∃ written, w.heap.keyText key = .error (.refused written) := by
  have hfault := failsOnly_keyText (h.describes w hw) key
  cases htext : w.heap.keyText key with
  | ok text => exact Or.inl ⟨text, rfl⟩
  | error fault =>
    have hrefusal := hfault fault htext
    cases fault with
    | refused written => exact Or.inr ⟨written, rfl⟩
    | panicked message => exact hrefusal.elim

/-- The entry of a dict returns unless its key is refused or a key inside of its value is. -/
theorem returnsUnless_captureEntry (h : answer.Returns w₀) (hw : answer.Leads w₀ w) {levels : Nat}
    {bad : Prop} {e : Value × Value}
    (hkey : ∀ written, w.heap.keyText e.1 = .error (.refused written) → bad)
    (hvalue : ∀ text, w.heap.keyText e.1 = .ok text →
      (captureLevels answer levels e.2).ReturnsUnless (answer.Leads w₀) bad w) :
    (captureEntry (captureLevels answer levels) e).ReturnsUnless (answer.Leads w₀) bad w := by
  obtain ⟨text, htext⟩ | ⟨written, htext⟩ := h.keyText hw e.1
  · have hrender : renderKey e.1 w = (.ok text, w) := by
      simp only [renderKey, Run.bind_apply, Run.inspect, htext, Run.pure_apply]
    refine Run.ReturnsUnless.bind (Or.inl ⟨text, w, hrender, hw⟩) fun key w₁ hw₁ _ => ?_
    cases hrender.symm.trans hw₁
    exact (hvalue text htext).bind fun image w₂ _ hw₂ => Run.returnsUnless_pure hw₂ _
  · exact Or.inr (hkey written htext)

/-- However deep a capture goes, it returns unless a key that it renders is refused. -/
theorem returnsUnless_captureLevels (h : answer.Returns w₀) (levels : Nat) (v : Value)
    (hw : answer.Leads w₀ w) :
    (captureLevels answer levels v).ReturnsUnless (answer.Leads w₀)
      (∃ w', RefusesKey answer levels v w w') w := by
  induction levels generalizing v w with
  | zero => exact Run.returnsUnless_pure hw _
  | succ levels ih =>
    -- the items of a list or tuple, under the heap's name for them
    have hsequence : ∀ {items}, w.heap.sequence? v = some items →
        (items.mapM (captureLevels answer levels)).ReturnsUnless (answer.Leads w₀)
          (∃ w', RefusesKey answer (levels + 1) v w w') w := fun hitems =>
      Run.returnsUnless_mapM hw fun before u after images w₁ hsplit hbefore hw₁ =>
        (ih u hw₁).mono fun ⟨w', hrefused⟩ =>
          ⟨w', hrefused.up fun hcomes => .item (hsplit ▸ hitems) hbefore hcomes⟩
    cases v with
    | list cell =>
      refine Run.returnsUnless_inspect ((hsequence rfl).bind fun images w₁ _ hw₁ => ?_)
      exact Run.returnsUnless_pure hw₁ _
    | tuple items =>
      exact (hsequence rfl).bind fun images w₁ _ hw₁ => Run.returnsUnless_pure hw₁ _
    | dict cell =>
      refine Run.returnsUnless_inspect (Run.ReturnsUnless.bind ?_ fun images w₁ _ hw₁ => ?_)
      · refine Run.returnsUnless_mapM hw fun before e after images w₁ hentries hbefore hw₁ => ?_
        refine returnsUnless_captureEntry h hw₁ (fun written hwritten => ?_) fun text htext => ?_
        · exact ⟨w₁, e.1, written, .entry (.refl _ _ _) hentries hbefore, hwritten⟩
        · exact (ih e.2 hw₁).mono fun ⟨w', hrefused⟩ =>
            ⟨w', hrefused.up fun hcomes => .entry hentries hbefore htext hcomes⟩
      · exact Run.returnsUnless_pure hw₁ _
    | object cell =>
      refine Run.returnsUnless_inspect ?_
      cases ho : w.heap.object? cell with
      | none => exact Run.returnsUnless_pure hw _
      | some o =>
        dsimp only
        by_cases hc : o.callable
        · rw [if_pos hc]
          exact Run.returnsUnless_pure hw _
        · rw [if_neg hc]
          have hc := Bool.eq_false_iff.mpr hc
          obtain ⟨attributes?, w₁, ha⟩ := h.answers w hw cell o ho hc
          have hw₁ : answer.Leads w₀ w₁ := .answered hw ho ha
          refine Run.ReturnsUnless.bind (Or.inl ⟨attributes?, w₁, ha, hw₁⟩)
            fun answered w₂ hw₂ _ => ?_
          cases ha.symm.trans hw₂
          cases attributes? with
          | none => exact Run.returnsUnless_pure hw₁ _
          | some attributes =>
            refine Run.ReturnsUnless.bind ?_ fun images w₃ _ hw₃ => Run.returnsUnless_pure hw₃ _
            refine Run.returnsUnless_mapM hw₁ fun before a after images w₃ hsplit hbefore hw₃ => ?_
            have hfield : (captureLevels answer levels a.2).ReturnsUnless (answer.Leads w₀)
                (∃ w', RefusesKey answer (levels + 1) (.object cell) w w') w₃ :=
              (ih a.2 hw₃).mono fun ⟨w', hrefused⟩ =>
                ⟨w', hrefused.up fun hcomes => .field ho hc ha hsplit hbefore hcomes⟩
            exact hfield.bind fun image w₄ _ hw₄ => Run.returnsUnless_pure hw₄ _
    | _ => exact Run.returnsUnless_pure hw _

end Returning

/-! ## Whether a capture returns -/

section Ends

variable {answer : Answering} {w : World} {maxDepth depth : UInt64}

/-- A capture whose objects all return makes a document, with a marker for every object that refuses
to describe itself, unless a key that it renders is refused: that panics. Either way nothing shows
that a description wrote before it refused. The greatest word is no limit, as no depth is beyond
it. -/
theorem captureAt_returns (h : answer.Returns w) (hmax : maxDepth + 1 ≠ 0) (o : Overflow)
    (depth : UInt64) (v : Value) :
    ((∃ j w', captureAt o answer maxDepth depth v w = (.ok j, w')) ∨
      ∃ w', RefusesKey answer (maxDepth.toNat + 1 - depth.toNat) v w w') ∧
    (∀ w', captureAt o answer maxDepth depth v w = (.panic (.text refusalMessage), w') ↔
      RefusesKey answer (maxDepth.toNat + 1 - depth.toNat) v w w') ∧
    (∀ cell obj, w.heap.object? cell = some obj → obj.callable = false → ∀ w',
      answer obj w = (.ok none, w') → (∀ text, obj.describe ≠ .ok text) → depth ≤ maxDepth →
      captureAt o answer maxDepth depth (.object cell) w =
        (.ok (.string unserializableMarker), w')) ∧
    ((∀ obj, Host.Ignores (answer obj) (answer obj.blank)) →
      captureAt o answer maxDepth depth v w.blank =
        ((captureAt o answer maxDepth depth v w).1,
          (captureAt o answer maxDepth depth v w).2.blank)) := by
  have hends : (∃ j w', captureAt o answer maxDepth depth v w = (.ok j, w')) ∨
      ∃ w', RefusesKey answer (maxDepth.toNat + 1 - depth.toNat) v w w' := by
    rw [captureAt_eq_levels hmax]
    refine (returnsUnless_captureLevels h _ v .start).imp_left ?_
    exact fun ⟨j, w', hj, _⟩ => ⟨j, w', hj⟩
  refine ⟨hends, fun w' => ⟨fun hpanic => ?_, fun hrefused => ?_⟩,
    fun cell obj hobj hc w' ha hd hdepth => ?_, fun hblank => ?_⟩
  · obtain ⟨j, w₁, hj⟩ | ⟨w₁, hrefused⟩ := hends
    · cases hj.symm.trans hpanic
    · have hpanics := hrefused.panics
      rw [← captureAt_eq_levels (o := o) hmax, hpanic] at hpanics
      cases hpanics
      exact hrefused
  · rw [captureAt_eq_levels hmax]
    exact hrefused.panics
  · have hmarker : captureDescription obj = .string unserializableMarker := by
      unfold captureDescription
      split
      next text htext => exact absurd htext (hd text)
      next => rfl
    rw [captureAt_of_le hdepth, captureNode_object hobj hc, Run.bind_apply, ha]
    simp only [hmarker, Run.pure_apply]
  · have hfollows := (ignores_captureAt hblank o maxDepth depth v).ends w
    rw [hfollows]
    cases (captureAt o answer maxDepth depth v w).1 <;> rfl

/-- An object that refuses to describe itself, in a list and as the key of a dict. -/
def refusing : World :=
  { World.empty with heap := { Heap.empty with
      lists := #[[.object 0]]
      dicts := #[[(.object 0, .int 1)]]
      objects := #[{ typeName := "T", attributes := .absent, callable := false
                     description := .refuses "abc" }] } }

/-- Its only object answers without changing anything. -/
theorem returns_refusing : (CallSampler.answer 0).Returns refusing := by
  have hobject : ∀ cell o, refusing.heap.object? cell = some o → cell = 0 := by
    intro cell o ho
    cases cell with
    | zero => rfl
    | succ cell => simp [refusing, Heap.object?] at ho
  refine Answering.returns_of_still (fun cell o ho => ?_) fun cell o ho message => ?_
  all_goals
    obtain rfl := hobject cell o ho
    cases ho
  · exact ⟨_, rfl⟩
  · exact fun h => by cases h

theorem captureAt_returns_refusing :
    (CallSampler.answer 0).Returns refusing ∧ (10 : UInt64) + 1 ≠ 0 ∧
      captureAt .wraps (CallSampler.answer 0) 10 3 (.object 0) refusing =
        (.ok (.string unserializableMarker), refusing) ∧
      captureAt .wraps (CallSampler.answer 0) 10 3 (.list 0) refusing.blank =
        ((captureAt .wraps (CallSampler.answer 0) 10 3 (.list 0) refusing).1,
          (captureAt .wraps (CallSampler.answer 0) 10 3 (.list 0) refusing).2.blank) := by
  have hmax : (10 : UInt64) + 1 ≠ 0 := by decide
  have h := captureAt_returns returns_refusing hmax .wraps 3 (.list 0)
  refine ⟨returns_refusing, hmax, ?_, h.2.2.2 (ignores_answer 0)⟩
  refine h.2.2.1 0 _ rfl rfl refusing rfl (fun text htext => ?_) (by decide)
  cases htext

/-- A key that is refused panics, although no object does. -/
theorem captureAt_refused_key :
    (CallSampler.answer 0).Returns refusing ∧
      captureAt .wraps (CallSampler.answer 0) 10 0 (.dict 0) refusing =
        (.panic (.text refusalMessage), refusing) := by
  refine ⟨returns_refusing, ?_⟩
  rw [captureAt_zero (by decide)]
  rfl

end Ends

end CallSampler
