import CallSampler.Call
import CallSampler.Proofs.Capture.Positions
import Mathlib.Data.List.Forall2

/-!
# Sharing does not show

Neither a capture nor a display form tells a shared cell from two equal ones, or a cycle from its
unrolled copy. Values in two worlds unfold alike if some relation between them holds of what stands
right inside of related values, and goes on to hold after objects have answered
(`Unfolding`); related values are then captured and displayed alike, as what is inside of them is
(`agrees_captureNode`, `render_eq`). Where answers change nothing, it suffices that the values agree
to every finite number of levels (`unfoldAlike_iff`).
-/

namespace CallSampler

/-! ## Values that unfold alike -/

/-- What is related in two worlds. -/
abbrev Relation : Type := World → World → Value → Value → Prop

/-- What is related in two worlds is related in two others. -/
def Relation.Kept (R : Relation) (w w' w₁ w₁' : World) : Prop :=
  ∀ u u', R w w' u u' → R w₁ w₁' u u'

/-- The outcomes of two runs are of one kind, with related values or for the same reason. -/
inductive Outcome.Rel {ε α β : Type} (R : α → β → Prop) : Outcome ε α → Outcome ε β → Prop
  | ok {a : α} {b : β} (h : R a b) : Rel R (.ok a) (.ok b)
  | error (e : ε) : Rel R (.error e) (.error e)
  | panic (p : Payload) : Rel R (.panic p) (.panic p)
  | exhausted : Rel R .exhausted .exhausted

/-- Two runs end alike, and what was related before them is related after them. -/
structure Agrees {α β : Type} (R : Relation) (Q : World → World → α → β → Prop) (x : Host α)
    (y : Host β) (w w' : World) : Prop where
  outcome : Outcome.Rel (Q (x w).2 (y w').2) (x w).1 (y w').1
  kept : R.Kept w w' (x w).2 (y w').2

/-- The same names in the same order, each with related values. -/
abbrev NamedAlike (R : Relation) (w w' : World) : List (String × Value) → List (String × Value) →
    Prop :=
  List.Forall₂ fun a a' => a.1 = a'.1 ∧ R w w' a.2 a'.2

/-- Two objects show and answer the same. A callable one is never asked. -/
structure ObjectsAlike (R : Relation) (answer answer' : Answering) (w w' : World)
    (o o' : Object) : Prop where
  callable : o.callable = o'.callable
  describe : o.describe = o'.describe
  answers : o.callable = false →
    Agrees R (fun w w' => Option.Rel (NamedAlike R w w')) (answer o) (answer' o') w w'

section Alike

variable (R : Relation) (answer answer' : Answering) (w w' : World)

/-- Two values have one constructor and the same scalar, and what stands right inside of them is
related, in its order. Of two functions only the names are compared. -/
inductive Alike : Value → Value → Prop
  | none : Alike .none .none
  | bool (b : Bool) : Alike (.bool b) (.bool b)
  | int (i : Int64) : Alike (.int i) (.int i)
  | float (x : Float) : Alike (.float x) (.float x)
  | str (s : String) : Alike (.str s) (.str s)
  | function {f f' : Callable} (h : f.name = f'.name) : Alike (.function f) (.function f')
  | list {cell cell' : Nat}
    (h : List.Forall₂ (R w w') (w.heap.listAt cell) (w'.heap.listAt cell')) :
    Alike (.list cell) (.list cell')
  | tuple {items items' : List Value} (h : List.Forall₂ (R w w') items items') :
    Alike (.tuple items) (.tuple items')
  | dict {cell cell' : Nat}
    (h : List.Forall₂ (fun e e' => R w w' e.1 e'.1 ∧ R w w' e.2 e'.2) (w.heap.dictAt cell)
      (w'.heap.dictAt cell')) :
    Alike (.dict cell) (.dict cell')
  | object {cell cell' : Nat}
    (h : Option.Rel (ObjectsAlike R answer answer' w w') (w.heap.object? cell)
      (w'.heap.object? cell')) :
    Alike (.object cell) (.object cell')

end Alike

/-- Related values are alike, and related values stand in them. -/
def Unfolding (answer answer' : Answering) (R : Relation) : Prop :=
  ∀ w w' v v', R w w' v v' → Alike R answer answer' w w' v v'

/-- Two values are the same all the way down, however far that is. -/
def UnfoldAlike (answer answer' : Answering) (w w' : World) (v v' : Value) : Prop :=
  ∃ R, Unfolding answer answer' R ∧ R w w' v v'

/-! ## Runs that agree -/

section Agreement

variable {R : Relation} {answer answer' : Answering} {w w' : World} {α β γ δ : Type}
  {Q : World → World → α → β → Prop} {P : World → World → γ → δ → Prop}

theorem Outcome.Rel.eq {ε : Type} {o o' : Outcome ε α} (h : Outcome.Rel Eq o o') : o = o' := by
  cases h with
  | ok h => rw [h]
  | _ => rfl

theorem agrees_pure {a : α} {b : β} (h : Q w w' a b) : Agrees R Q (pure a) (pure b) w w' :=
  ⟨.ok h, fun _ _ => id⟩

theorem agrees_panic (p : Payload) :
    Agrees R Q (Run.panic p : Host α) (Run.panic p : Host β) w w' :=
  ⟨.panic p, fun _ _ => id⟩

theorem agrees_exhaust : Agrees R Q (Run.exhaust : Host α) (Run.exhaust : Host β) w w' :=
  ⟨.exhausted, fun _ _ => id⟩

theorem Agrees.bind {x : Host α} {y : Host β} {k : α → Host γ} {l : β → Host δ}
    (h : Agrees R Q x y w w')
    (hk : ∀ a b w₁ w₁', Q w₁ w₁' a b → R.Kept w w' w₁ w₁' → Agrees R P (k a) (l b) w₁ w₁') :
    Agrees R P (x >>= k) (y >>= l) w w' := by
  obtain ⟨houtcome, hkept⟩ := h
  rcases hx : x w with ⟨o, w₁⟩
  rcases hy : y w' with ⟨o', w₁'⟩
  rw [hx, hy] at houtcome hkept
  cases houtcome with
  | ok hq =>
    obtain ⟨hrest, hlater⟩ := hk _ _ w₁ w₁' hq hkept
    constructor
    · rw [Run.bind_apply, Run.bind_apply, hx, hy]
      exact hrest
    · rw [Run.bind_apply, Run.bind_apply, hx, hy]
      exact fun u u' hu => hlater u u' (hkept u u' hu)
  | _ =>
    constructor
    · rw [Run.bind_apply, Run.bind_apply, hx, hy]
      constructor
    · rw [Run.bind_apply, Run.bind_apply, hx, hy]
      exact hkept

/-- Looking at the world changes nothing. -/
theorem agrees_inspect {f : World → α} {g : World → β} {k : α → Host γ} {l : β → Host δ}
    (h : Agrees R P (k (f w)) (l (g w')) w w') :
    Agrees R P (Run.inspect f >>= k) (Run.inspect g >>= l) w w' :=
  ⟨h.outcome, h.kept⟩

/-- A traversal of related items, which stay related while others are gone through. -/
theorem agrees_mapM {S : World → World → α → β → Prop} {k : α → Host γ} {l : β → Host γ}
    (hS : ∀ w w' w₁ w₁', R.Kept w w' w₁ w₁' → ∀ a b, S w w' a b → S w₁ w₁' a b)
    (hk : ∀ w w' a b, S w w' a b → Agrees R (fun _ _ => Eq) (k a) (l b) w w')
    {xs : List α} {ys : List β} (h : List.Forall₂ (S w w') xs ys) :
    Agrees R (fun _ _ => Eq) (xs.mapM k) (ys.mapM l) w w' := by
  induction xs generalizing ys w w' with
  | nil =>
    cases h
    exact agrees_pure rfl
  | cons x xs ih =>
    cases h with
    | cons hx hrest =>
      rw [List.mapM_cons, List.mapM_cons]
      refine (hk _ _ _ _ hx).bind fun c d w₁ w₁' hcd hkept => ?_
      refine (ih (hrest.imp (hS _ _ _ _ hkept))).bind fun cs ds w₂ w₂' hcds _ => ?_
      rw [hcd, hcds]
      exact agrees_pure rfl

/-- The same where a document is made of what the traversal returns. -/
theorem agrees_images {S : World → World → α → β → Prop} {k : α → Host γ} {l : β → Host γ}
    (make : List γ → Json)
    (hS : ∀ w w' w₁ w₁', R.Kept w w' w₁ w₁' → ∀ a b, S w w' a b → S w₁ w₁' a b)
    (hk : ∀ w w' a b, S w w' a b → Agrees R (fun _ _ => Eq) (k a) (l b) w w')
    {xs : List α} {ys : List β} (h : List.Forall₂ (S w w') xs ys) :
    Agrees R (fun _ _ => Eq) (xs.mapM k >>= fun images => pure (make images))
      (ys.mapM l >>= fun images => pure (make images)) w w' := by
  refine (agrees_mapM hS hk h).bind fun images images' _ _ himages _ => ?_
  rw [himages]
  exact agrees_pure rfl

/-! ## Display forms -/

theorem mapM_eq_of_forall₂ {ε : Type} {f : α → Except ε γ} {g : β → Except ε γ} {xs : List α}
    {ys : List β} (h : List.Forall₂ (fun x y => f x = g y) xs ys) : xs.mapM f = ys.mapM g := by
  induction h with
  | nil => rfl
  | cons hx _ ih => rw [List.mapM_cons, List.mapM_cons, hx, ih]

theorem render_object_eq {cell cell' : Nat}
    (h : Option.Rel (ObjectsAlike R answer answer' w w') (w.heap.object? cell)
      (w'.heap.object? cell')) (levels : Nat) (quoted : Bool) :
    w.heap.render levels quoted (.object cell) = w'.heap.render levels quoted (.object cell') := by
  rw [Heap.render, Heap.render]
  generalize w.heap.object? cell = o?, w'.heap.object? cell' = o?' at h ⊢
  cases h with
  | none => rfl
  | some ho => exact ho.describe

/-- Values that unfold alike are displayed alike. -/
theorem render_eq (hR : Unfolding answer answer' R) (levels : Nat) (quoted : Bool) {v v' : Value}
    (h : R w w' v v') : w.heap.render levels quoted v = w'.heap.render levels quoted v' := by
  induction levels generalizing quoted v v' with
  | zero =>
    cases hR _ _ _ _ h with
    | function hname => rw [Heap.render, Heap.render, hname]
    | object hobjects => exact render_object_eq hobjects _ quoted
    | _ => rfl
  | succ levels ih =>
    cases hR _ _ _ _ h with
    | function hname => rw [Heap.render, Heap.render, hname]
    | object hobjects => exact render_object_eq hobjects _ quoted
    | list hitems =>
      rw [Heap.render, Heap.render, mapM_eq_of_forall₂ (hitems.imp fun _ _ => ih true)]
    | tuple hitems =>
      rw [Heap.render, Heap.render, mapM_eq_of_forall₂ (hitems.imp fun _ _ => ih true),
        hitems.length_eq]
    | dict hentries =>
      rw [Heap.render, Heap.render]
      refine congrArg (· >>= _) (mapM_eq_of_forall₂ (hentries.imp fun e e' he => ?_))
      dsimp only
      rw [ih true he.1, ih true he.2]
    | _ => rfl

theorem keyText_eq (hR : Unfolding answer answer' R) {v v' : Value} (h : R w w' v v') :
    w.heap.keyText v = w'.heap.keyText v' := by
  have hdisplay : w.heap.display v = w'.heap.display v' := render_eq hR reprLevels false h
  cases hR _ _ _ _ h with
  | str s => rfl
  | _ => exact hdisplay

/-! ## Captures -/

theorem agrees_renderKey (hR : Unfolding answer answer' R) {key key' : Value}
    (h : R w w' key key') :
    Agrees R (fun _ _ => Eq) (renderKey key) (renderKey key') w w' := by
  refine agrees_inspect ?_
  rw [keyText_eq hR h]
  cases w'.heap.keyText key' with
  | ok text => exact agrees_pure rfl
  | error fault => exact agrees_panic fault.payload

/-- Public attributes are alike if all are. -/
theorem NamedAlike.filter {as as' : List (String × Value)} (h : NamedAlike R w w' as as') :
    NamedAlike R w w' (as.filter fun a => isPublic a.1) (as'.filter fun a => isPublic a.1) :=
  List.rel_filter (fun _ _ ha => by simp only [ha.1]) h

/-- Related values are captured alike by the one and the other, and what was related stays so. -/
def CapturesAlike (R : Relation) (x y : Value → Host Json) : Prop :=
  ∀ {w w' v v'}, R w w' v v' → Agrees R (fun _ _ => Eq) (x v) (y v') w w'

/-- Values that unfold alike are captured alike if what is inside of them is. -/
theorem agrees_captureNode (hR : Unfolding answer answer' R) {inner inner' : Value → Host Json}
    (hi : CapturesAlike R inner inner') :
    CapturesAlike R (captureNode answer inner) (captureNode answer' inner') := by
  intro w w' v v' h
  cases hR _ _ _ _ h with
  | list hitems =>
    refine agrees_inspect ?_
    exact agrees_images (S := R) .array (fun _ _ _ _ hkept => hkept) (fun _ _ _ _ => hi) hitems
  | tuple hitems =>
    exact agrees_images (S := R) .array (fun _ _ _ _ hkept => hkept) (fun _ _ _ _ => hi) hitems
  | dict hentries =>
    refine agrees_inspect (agrees_images
      (S := fun w w' (e e' : Value × Value) => R w w' e.1 e'.1 ∧ R w w' e.2 e'.2)
      (fun images => .object (Entries.ofAssignments images))
      (fun _ _ _ _ hkept _ _ he => ⟨hkept _ _ he.1, hkept _ _ he.2⟩)
      (fun _ _ e e' he => ?_) hentries)
    refine (agrees_renderKey hR he.1).bind fun key key' w₁ w₁' hkey hkept => ?_
    refine (hi (hkept _ _ he.2)).bind fun image image' _ _ himage _ => ?_
    rw [hkey, himage]
    exact agrees_pure rfl
  | @object cell cell' hobjects =>
    refine agrees_inspect ?_
    generalize w.heap.object? cell = o?, w'.heap.object? cell' = o?' at hobjects ⊢
    cases hobjects with
    | none => exact agrees_pure rfl
    | @some o o' ho =>
      dsimp only
      by_cases hc : o.callable
      · rw [if_pos hc, if_pos (ho.callable ▸ hc)]
        exact agrees_pure rfl
      · rw [if_neg hc, if_neg (ho.callable ▸ hc)]
        refine (ho.answers (Bool.eq_false_iff.mpr hc)).bind fun as? as?' w₁ w₁' has _ => ?_
        cases has with
        | none =>
          rw [captureDescription, captureDescription, ho.describe]
          exact agrees_pure rfl
        | some has =>
          refine agrees_images
            (S := fun w w' (a a' : String × Value) => a.1 = a'.1 ∧ R w w' a.2 a'.2)
            (fun images => .object (Entries.ofAssignments images))
            (fun _ _ _ _ hkept _ _ ha => ⟨ha.1, hkept _ _ ha.2⟩) (fun _ _ a a' ha => ?_)
            has.filter
          refine (hi ha.2).bind fun image image' _ _ himage _ => ?_
          rw [ha.1, himage]
          exact agrees_pure rfl
  | _ => exact agrees_pure rfl

theorem agrees_captureLevels (hR : Unfolding answer answer' R) (levels : Nat) :
    CapturesAlike R (captureLevels answer levels) (captureLevels answer' levels) := by
  induction levels with
  | zero => exact fun _ => agrees_pure rfl
  | succ levels ih => exact agrees_captureNode hR ih

theorem agrees_captureAt (hR : Unfolding answer answer' R) (o : Overflow)
    (maxDepth depth : UInt64) :
    CapturesAlike R (captureAt o answer maxDepth depth) (captureAt o answer' maxDepth depth) :=
  captureAt_relates (R := CapturesAlike R) (fun _ => agrees_pure rfl) (fun _ => agrees_panic _)
    (fun _ => agrees_exhaust) (fun _ _ hi => agrees_captureNode hR hi) o maxDepth depth

/-- Two values have the same capture at every depth, down to every limit, and the same texts. -/
structure ShowAlike (answer answer' : Answering) (w w' : World) (v v' : Value) : Prop where
  captured : ∀ o maxDepth depth, (captureAt o answer maxDepth depth v w).1 =
    (captureAt o answer' maxDepth depth v' w').1
  sampled : ∀ maxDepth, (capture answer maxDepth v w).1 = (capture answer' maxDepth v' w').1
  keyText : w.heap.keyText v = w'.heap.keyText v'
  display : w.heap.display v = w'.heap.display v'
  repr : w.heap.repr v = w'.heap.repr v'

theorem UnfoldAlike.showAlike {v v' : Value} (h : UnfoldAlike answer answer' w w' v v') :
    ShowAlike answer answer' w w' v v' := by
  obtain ⟨R, hR, hv⟩ := h
  exact ⟨fun o maxDepth depth => (agrees_captureAt hR o maxDepth depth hv).outcome.eq,
    fun maxDepth => (agrees_captureLevels hR (maxDepth + 1) hv).outcome.eq,
    keyText_eq hR hv, render_eq hR reprLevels false hv, render_eq hR reprLevels true hv⟩

end Agreement

/-! ## Finitely many levels -/

section Levels

variable {answer answer' : Answering} {w w' : World} {α β : Type}

/-- Values are alike to so many levels. -/
def alikeTo (answer answer' : Answering) : Nat → Relation
  | 0 => fun _ _ _ _ => True
  | n + 1 => Alike (alikeTo answer answer' n) answer answer'

/-- Objects answer without changing the world. -/
def Answering.Still (answer : Answering) (w : World) : Prop :=
  ∀ cell o, w.heap.object? cell = some o → o.callable = false → (answer o w).2 = w

theorem forall₂_forall {S : Nat → α → β → Prop} {xs : List α} {ys : List β}
    (h : ∀ n, List.Forall₂ (S n) xs ys) : List.Forall₂ (fun x y => ∀ n, S n x y) xs ys := by
  induction xs generalizing ys with
  | nil =>
    cases h 0
    exact .nil
  | cons x xs ih =>
    cases h 0 with
    | cons _ _ =>
      exact .cons (fun n => (List.forall₂_cons.mp (h n)).1)
        (ih fun n => (List.forall₂_cons.mp (h n)).2)

variable {S : Nat → Relation} {T : Relation}

/-- Objects that answer without changing the world are alike if they are at all levels. -/
theorem objectsAlike_of_forall (hT : ∀ u u', (∀ n, S n w w' u u') → T w w' u u') {o o' : Object}
    (ho : o.callable = false → (answer o w).2 = w ∧ (answer' o' w').2 = w')
    (h : ∀ n, ObjectsAlike (S n) answer answer' w w' o o') :
    ObjectsAlike T answer answer' w w' o o' := by
  refine ⟨(h 0).callable, (h 0).describe, fun hc => ?_⟩
  obtain ⟨hw, hw'⟩ := ho hc
  have houtcomes := fun n => ((h n).answers hc).outcome
  simp only [hw, hw'] at houtcomes
  refine ⟨?_, fun u u' => ?_⟩
  · rw [hw, hw']
    generalize (answer o w).1 = x, (answer' o' w').1 = y at houtcomes ⊢
    cases houtcomes 0 with
    | @ok as? as?' has =>
      cases has with
      | none => exact .ok .none
      | @some as as' _ =>
        have hall : ∀ n, NamedAlike (S n) w w' as as' := by
          intro n
          cases houtcomes n with
          | ok h =>
            cases h with
            | some h => exact h
        refine .ok (.some ((forall₂_forall hall).imp fun a a' ha => ?_))
        exact ⟨(ha 0).1, hT _ _ fun n => (ha n).2⟩
    | error e => exact .error e
    | panic p => exact .panic p
    | exhausted => exact .exhausted
  · rw [hw, hw']
    exact id

/-- Values whose objects answer without changing the world are alike if they are at all levels. -/
theorem alike_of_forall (hw : answer.Still w) (hw' : answer'.Still w')
    (hT : ∀ u u', (∀ n, S n w w' u u') → T w w' u u') {v v' : Value}
    (h : ∀ n, Alike (S n) answer answer' w w' v v') : Alike T answer answer' w w' v v' := by
  cases h 0 with
  | none => exact .none
  | bool b => exact .bool b
  | int i => exact .int i
  | float x => exact .float x
  | str s => exact .str s
  | function hname => exact .function hname
  | list _ =>
    refine .list ((forall₂_forall fun n => ?_).imp hT)
    cases h n with
    | list hitems => exact hitems
  | tuple _ =>
    refine .tuple ((forall₂_forall fun n => ?_).imp hT)
    cases h n with
    | tuple hitems => exact hitems
  | @dict cell cell' _ =>
    have hall : ∀ n, List.Forall₂ (fun e e' => S n w w' e.1 e'.1 ∧ S n w w' e.2 e'.2)
        (w.heap.dictAt cell) (w'.heap.dictAt cell') := by
      intro n
      cases h n with
      | dict hentries => exact hentries
    refine .dict ((forall₂_forall hall).imp fun e e' he => ?_)
    exact ⟨hT _ _ fun n => (he n).1, hT _ _ fun n => (he n).2⟩
  | @object cell cell' _ =>
    have hall : ∀ n, Option.Rel (ObjectsAlike (S n) answer answer' w w') (w.heap.object? cell)
        (w'.heap.object? cell') := by
      intro n
      cases h n with
      | object hobjects => exact hobjects
    refine .object ?_
    cases ho : w.heap.object? cell <;> cases ho' : w'.heap.object? cell' <;>
      simp only [ho, ho'] at hall
    case none.none => exact .none
    case some.some o o' =>
      have hobjects : ∀ n, ObjectsAlike (S n) answer answer' w w' o o' := by
        intro n
        cases hall n with
        | some hn => exact hn
      refine .some (objectsAlike_of_forall hT (fun hc => ⟨hw cell o ho hc, ?_⟩) hobjects)
      exact hw' cell' o' ho' ((hobjects 0).callable ▸ hc)
    all_goals cases hall 0

/-- Where objects answer without changing the world, values unfold alike if and only if they are
alike to every finite number of levels. -/
theorem unfoldAlike_iff (hw : answer.Still w) (hw' : answer'.Still w') {v v' : Value} :
    UnfoldAlike answer answer' w w' v v' ↔ ∀ n, alikeTo answer answer' n w w' v v' := by
  constructor
  · rintro ⟨R, hR, hv⟩ n
    induction n generalizing v v' with
    | zero => trivial
    | succ n ih =>
      exact alike_of_forall (S := fun _ => R) hw hw' (fun _ _ hu => ih (hu 0))
        fun _ => hR _ _ _ _ hv
  · intro h
    refine ⟨fun w₁ w₁' u u' => w₁ = w ∧ w₁' = w' ∧ ∀ n, alikeTo answer answer' n w w' u u', ?_,
      rfl, rfl, h⟩
    rintro _ _ u u' ⟨rfl, rfl, hu⟩
    exact alike_of_forall (S := alikeTo answer answer') hw hw' (fun _ _ hall => ⟨rfl, rfl, hall⟩)
      fun n => hu (n + 1)

/-- Values that unfold alike are told apart by no capture and no display form, whichever cells they
are made of. What that asks for is, where objects answer without changing the world, that the values
are alike to every finite number of levels. -/
theorem sharing_invisible (answer answer' : Answering) (w w' : World) (v v' : Value) :
    (UnfoldAlike answer answer' w w' v v' → ShowAlike answer answer' w w' v v') ∧
      (answer.Still w → answer'.Still w' →
        (UnfoldAlike answer answer' w w' v v' ↔ ∀ n, alikeTo answer answer' n w w' v v')) :=
  ⟨UnfoldAlike.showAlike, fun hw hw' => unfoldAlike_iff hw hw'⟩

end Levels

/-! ## A circle and its copy -/

/-- The circle with a copy of its list and of its object, which lead to each other. -/
def unrolled : World :=
  { World.empty with heap := { Heap.empty with
      lists := #[[.list 1, .object 1], [.list 0, .object 0]]
      objects := #[
        { typeName := "N", attributes := .listed [("home", .list 1), ("me", .object 1)]
          callable := false, description := .byType },
        { typeName := "N", attributes := .listed [("home", .list 0), ("me", .object 0)]
          callable := false, description := .byType }] } }

theorem unfoldAlike_unrolled :
    UnfoldAlike (answer 0) (answer 0) circle unrolled (.tuple [.list 0, .list 0])
      (.tuple [.list 0, .list 1]) := by
  -- each copy is related to its original, and nothing else is
  let R : Relation := fun w w' v v' => w = circle ∧ w' = unrolled ∧
    ((v = .tuple [.list 0, .list 0] ∧ v' = .tuple [.list 0, .list 1]) ∨
      (v = .list 0 ∧ (v' = .list 0 ∨ v' = .list 1)) ∨
      (v = .object 0 ∧ (v' = .object 0 ∨ v' = .object 1)))
  have hlist : ∀ {v'}, v' = .list 0 ∨ v' = .list 1 → R circle unrolled (.list 0) v' :=
    fun h => ⟨rfl, rfl, Or.inr (Or.inl ⟨rfl, h⟩)⟩
  have hobject : ∀ {v'}, v' = .object 0 ∨ v' = .object 1 → R circle unrolled (.object 0) v' :=
    fun h => ⟨rfl, rfl, Or.inr (Or.inr ⟨rfl, h⟩)⟩
  refine ⟨R, ?_, rfl, rfl, Or.inl ⟨rfl, rfl⟩⟩
  rintro w w' v v' ⟨rfl, rfl, ⟨rfl, rfl⟩ | ⟨rfl, rfl | rfl⟩ | ⟨rfl, rfl | rfl⟩⟩
  · exact .tuple (.cons (hlist (Or.inl rfl)) (.cons (hlist (Or.inr rfl)) .nil))
  · exact .list (.cons (hlist (Or.inr rfl)) (.cons (hobject (Or.inr rfl)) .nil))
  · exact .list (.cons (hlist (Or.inl rfl)) (.cons (hobject (Or.inl rfl)) .nil))
  · refine .object (.some ⟨rfl, rfl, fun _ => ⟨.ok (.some ?_), fun _ _ => id⟩⟩)
    exact .cons ⟨rfl, hlist (Or.inr rfl)⟩ (.cons ⟨rfl, hobject (Or.inr rfl)⟩ .nil)
  · refine .object (.some ⟨rfl, rfl, fun _ => ⟨.ok (.some ?_), fun _ _ => id⟩⟩)
    exact .cons ⟨rfl, hlist (Or.inl rfl)⟩ (.cons ⟨rfl, hobject (Or.inl rfl)⟩ .nil)

theorem still_circle : (answer 0).Still circle := by
  intro cell o ho _
  cases cell with
  | zero =>
    cases ho
    rfl
  | succ cell => simp [circle, Heap.object?] at ho

theorem still_unrolled : (answer 0).Still unrolled := by
  intro cell o ho _
  cases cell with
  | zero =>
    cases ho
    rfl
  | succ cell =>
    cases cell with
    | zero =>
      cases ho
      rfl
    | succ cell => simp [unrolled, Heap.object?] at ho

theorem sharing_invisible_unrolled :
    UnfoldAlike (answer 0) (answer 0) circle unrolled (.tuple [.list 0, .list 0])
        (.tuple [.list 0, .list 1]) ∧
      ShowAlike (answer 0) (answer 0) circle unrolled (.tuple [.list 0, .list 0])
        (.tuple [.list 0, .list 1]) ∧
      (answer 0).Still circle ∧ (answer 0).Still unrolled ∧
      alikeTo (answer 0) (answer 0) 100 circle unrolled (.tuple [.list 0, .list 0])
        (.tuple [.list 0, .list 1]) := by
  obtain ⟨hshow, hlevels⟩ := sharing_invisible (answer 0) (answer 0) circle unrolled
    (.tuple [.list 0, .list 0]) (.tuple [.list 0, .list 1])
  exact ⟨unfoldAlike_unrolled, hshow unfoldAlike_unrolled, still_circle, still_unrolled,
    (hlevels still_circle still_unrolled).mp unfoldAlike_unrolled 100⟩

end CallSampler
