import CallSampler.Value.Repr
import Mathlib.Data.List.Forall2

/-!
# Positions in values

A position below a value says for each container on the way which of its items, keys or values comes
next, and so it is a path through the value unrolled: where a value contains itself, there are
positions of any length, and several positions lead to one cell. Two values, each with its own heap,
are the same if they show the same at every position (`Heap.Same`), and one is the other with
something else at a position if they show the same at every position that is not there or inside
(`Heap.SameBut`). Both go over to what stands inside (`Same.child`, `SameBut.child`). From above, a
container that comes in the place of another cannot be told from it by looking no deeper than the
place (`SameBut.sameWithin`).
-/

namespace CallSampler

/-- A place right inside a container: an item of a list or tuple, or the key or the value of an
entry of a dict. -/
inductive Child where
  | item (index : Nat)
  | key (index : Nat)
  | value (index : Nat)
deriving DecidableEq, Repr

/-- Whether a value is a list, a tuple or a dict. -/
def Value.isContainer : Value → Bool
  | .list _ => true
  | .tuple _ => true
  | .dict _ => true
  | _ => false

/-! ## Lists index by index -/

section Indices

variable {α β : Type} {R : α → β → Prop}

theorem forall₂_iff_getElem? {xs : List α} {ys : List β} :
    List.Forall₂ R xs ys ↔ ∀ i : Nat, Option.Rel R xs[i]? ys[i]? := by
  constructor
  · intro h
    induction h with
    | nil => exact fun i => .none
    | cons hx _ ih =>
      intro i
      cases i with
      | zero => exact .some hx
      | succ i => exact ih i
  · intro h
    induction xs generalizing ys with
    | nil =>
      cases ys with
      | nil => exact .nil
      | cons y ys => cases h 0
    | cons x xs ih =>
      cases ys with
      | nil => cases h 0
      | cons y ys =>
        cases h 0 with
        | some hx => exact .cons hx (ih fun i => h (i + 1))

theorem rel_imp {S : α → β → Prop} (h : ∀ a b, R a b → S a b) {a? : Option α} {b? : Option β}
    (hR : Option.Rel R a? b?) : Option.Rel S a? b? := by
  cases hR with
  | none => exact .none
  | some hab => exact .some (h _ _ hab)

end Indices

namespace Heap

/-! ## Positions -/

/-- What stands right inside a value. -/
def child? (h : Heap) : Value → Child → Option Value
  | .list cell, .item i => (h.listAt cell)[i]?
  | .tuple items, .item i => items[i]?
  | .dict cell, .key i => ((h.dictAt cell)[i]?).map Prod.fst
  | .dict cell, .value i => ((h.dictAt cell)[i]?).map Prod.snd
  | _, _ => none

/-- What stands at a position below a value. -/
def valueAt? (h : Heap) (v : Value) : List Child → Option Value
  | [] => some v
  | c :: rest => (h.child? v c).bind fun u => h.valueAt? u rest

/-- Every object in a value, however deep, has a description, which neither refuses nor panics. -/
def Describes (h : Heap) (v : Value) : Prop :=
  ∀ position cell, h.valueAt? v position = some (.object cell) →
    ∃ o text, h.object? cell = some o ∧ o.describe = .ok text

/-- At most so many containers are nested in a value: nothing that stands so deep has anything
inside. -/
def NestsAtMost (h : Heap) (levels : Nat) (v : Value) : Prop :=
  ∀ position u, position.length = levels → h.valueAt? v position = some u → u.isContainer = false

/-- Two values show the same by themselves, apart from what stands inside of them. Functions show
their names and objects their descriptions. -/
inductive SameFace (h h' : Heap) : Value → Value → Prop
  | none : SameFace h h' .none .none
  | bool (b : Bool) : SameFace h h' (.bool b) (.bool b)
  | int (i : Int64) : SameFace h h' (.int i) (.int i)
  | float (x : Float) : SameFace h h' (.float x) (.float x)
  | str (s : String) : SameFace h h' (.str s) (.str s)
  | function {f f' : Callable} (hname : f.name = f'.name) :
    SameFace h h' (.function f) (.function f')
  | object {cell cell' : Nat} (hdescribe : (h.object? cell).map Object.describe =
      (h'.object? cell').map Object.describe) :
    SameFace h h' (.object cell) (.object cell')
  | list (cell cell' : Nat) : SameFace h h' (.list cell) (.list cell')
  | tuple (items items' : List Value) : SameFace h h' (.tuple items) (.tuple items')
  | dict (cell cell' : Nat) : SameFace h h' (.dict cell) (.dict cell')

/-- Two values are the same all the way down: the same positions lead somewhere, and to what shows
the same. -/
def Same (h h' : Heap) (v v' : Value) : Prop :=
  ∀ position, Option.Rel (SameFace h h') (h.valueAt? v position) (h'.valueAt? v' position)

/-- Two values are the same so many levels deep, and right below these containers are not told
apart. -/
def SameWithin (h h' : Heap) : Nat → Value → Value → Prop
  | 0, v, v' => SameFace h h' v v' ∨ (v.isContainer ∧ v'.isContainer)
  | levels + 1, v, v' =>
    SameFace h h' v v' ∧ ∀ c, Option.Rel (h.SameWithin h' levels) (h.child? v c) (h'.child? v' c)

/-- Two values are the same but for what stands at a position and inside of that. -/
def SameBut (h h' : Heap) (position : List Child) (v v' : Value) : Prop :=
  ∀ other, ¬position <+: other →
    Option.Rel (SameFace h h') (h.valueAt? v other) (h'.valueAt? v' other)

section Children

variable {h h' : Heap} {v v' u u' : Value} {c d : Child} {position : List Child} {levels : Nat}

theorem valueAt?_of_child (hu : h.child? v c = some u) (position : List Child) :
    h.valueAt? v (c :: position) = h.valueAt? u position := by
  rw [valueAt?, hu, Option.bind_some]

theorem valueAt?_singleton (v : Value) (c : Child) : h.valueAt? v [c] = h.child? v c := by
  rw [valueAt?]
  exact Option.bind_fun_some _

theorem exists_child_of_valueAt? (hu : h.valueAt? v (c :: position) = some u) :
    ∃ w, h.child? v c = some w ∧ h.valueAt? w position = some u :=
  Option.bind_eq_some_iff.mp hu

theorem exists_child_of_mem_listAt {cell : Nat} (hu : u ∈ h.listAt cell) :
    ∃ c, h.child? (.list cell) c = some u := by
  obtain ⟨i, hi⟩ := List.mem_iff_getElem?.mp hu
  exact ⟨.item i, hi⟩

theorem exists_child_of_mem_items {items : List Value} (hu : u ∈ items) :
    ∃ c, h.child? (.tuple items) c = some u := by
  obtain ⟨i, hi⟩ := List.mem_iff_getElem?.mp hu
  exact ⟨.item i, hi⟩

theorem exists_child_of_mem_dictAt {cell : Nat} {e : Value × Value} (he : e ∈ h.dictAt cell) :
    (∃ c, h.child? (.dict cell) c = some e.1) ∧ ∃ c, h.child? (.dict cell) c = some e.2 := by
  obtain ⟨i, hi⟩ := List.mem_iff_getElem?.mp he
  exact ⟨⟨.key i, by rw [child?, hi]; rfl⟩, ⟨.value i, by rw [child?, hi]; rfl⟩⟩

theorem Describes.child (hd : h.Describes v) (hu : h.child? v c = some u) : h.Describes u := by
  intro position cell hcell
  exact hd (c :: position) cell (by rwa [valueAt?_of_child hu])

/-- To show that all objects have a description, it is enough to name a set of values that is closed
under what stands inside. -/
theorem describes_of_closed {S : Value → Prop}
    (hobject : ∀ cell, S (.object cell) →
      ∃ o text, h.object? cell = some o ∧ o.describe = .ok text)
    (hchild : ∀ v c u, S v → h.child? v c = some u → S u) (hv : S v) : h.Describes v := by
  intro position cell hcell
  induction position generalizing v with
  | nil =>
    cases hcell
    exact hobject cell hv
  | cons c position ih =>
    obtain ⟨u, hu, hcell⟩ := exists_child_of_valueAt? hcell
    exact ih (hchild v c u hv hu) hcell

theorem NestsAtMost.child (hn : h.NestsAtMost (levels + 1) v) (hu : h.child? v c = some u) :
    h.NestsAtMost levels u := by
  intro position w hlength hw
  exact hn (c :: position) w (by rw [List.length_cons, hlength]) (by rwa [valueAt?_of_child hu])

theorem nestsAtMost_of_child (hn : ∀ c u, h.child? v c = some u → h.NestsAtMost levels u) :
    h.NestsAtMost (levels + 1) v := by
  intro position w hlength hw
  cases position with
  | nil => cases hlength
  | cons c position =>
    obtain ⟨u, hu, hw⟩ := exists_child_of_valueAt? hw
    exact hn c u hu position w (Nat.succ.inj hlength) hw

theorem child?_eq_none (hv : v.isContainer = false) (c : Child) : h.child? v c = none := by
  cases v with
  | list cell => contradiction
  | tuple items => contradiction
  | dict cell => contradiction
  | _ => rfl

theorem nestsAtMost_of_not_isContainer (hv : v.isContainer = false) (levels : Nat) :
    h.NestsAtMost levels v := by
  intro position u _ hu
  cases position with
  | nil =>
    cases hu
    exact hv
  | cons c position =>
    rw [valueAt?, child?_eq_none hv] at hu
    cases hu

theorem sameFace_refl (h : Heap) (v : Value) : SameFace h h v v := by
  cases v
  all_goals constructor
  all_goals rfl

theorem sameBut_refl (h : Heap) (position : List Child) (v : Value) :
    h.SameBut h position v v := by
  intro other _
  cases h.valueAt? v other with
  | none => exact .none
  | some u => exact .some (sameFace_refl h u)

/-- What is the same from some place inside on is the same there. -/
theorem same_of_rel (hrel : ∀ position, Option.Rel (SameFace h h') (h.valueAt? v (d :: position))
      (h'.valueAt? v' (d :: position))) :
    Option.Rel (h.Same h') (h.child? v d) (h'.child? v' d) := by
  have hface := hrel []
  unfold valueAt? at hface
  cases hu : h.child? v d with
  | none =>
    cases hu' : h'.child? v' d with
    | none => exact .none
    | some u' =>
      rw [hu, hu'] at hface
      cases hface
  | some u =>
    cases hu' : h'.child? v' d with
    | none =>
      rw [hu, hu'] at hface
      cases hface
    | some u' =>
      refine .some fun position => ?_
      rw [← valueAt?_of_child hu, ← valueAt?_of_child hu']
      exact hrel position

theorem Same.face (hs : h.Same h' v v') : SameFace h h' v v' := by
  cases hs [] with
  | some hface => exact hface

theorem Same.child (hs : h.Same h' v v') (d : Child) :
    Option.Rel (h.Same h') (h.child? v d) (h'.child? v' d) :=
  same_of_rel fun position => hs (d :: position)

theorem Same.sameWithin (hs : h.Same h' v v') (levels : Nat) : h.SameWithin h' levels v v' := by
  induction levels generalizing v v' with
  | zero => exact .inl hs.face
  | succ levels ih => exact ⟨hs.face, fun c => rel_imp (fun _ _ => ih) (hs.child c)⟩

theorem SameBut.face (hs : h.SameBut h' (c :: position) v v') : SameFace h h' v v' := by
  have hroot : ¬c :: position <+: [] := by simp
  cases hs [] hroot with
  | some hface => exact hface

/-- Beside the position all is the same. -/
theorem SameBut.child_of_ne (hs : h.SameBut h' (c :: position) v v') (hd : d ≠ c) :
    Option.Rel (h.Same h') (h.child? v d) (h'.child? v' d) := by
  refine same_of_rel fun other => hs (d :: other) fun hbegins => ?_
  exact hd (List.cons_prefix_cons.mp hbegins).1.symm

/-- What differs inside of a part differs at that part. -/
theorem SameBut.at_child (hs : h.SameBut h' (c :: position) v v') : h.SameBut h' [c] v v' := by
  intro other hother
  refine hs other fun hbegins => hother ?_
  exact (List.prefix_append [c] position).trans hbegins

theorem SameBut.child (hs : h.SameBut h' (c :: position) v v') (hu : h.child? v c = some u)
    (hu' : h'.child? v' c = some u') : h.SameBut h' position u u' := by
  intro other hother
  rw [← valueAt?_of_child hu, ← valueAt?_of_child hu']
  exact hs (c :: other) fun hbegins => hother (List.cons_prefix_cons.mp hbegins).2

/-- A container in the place of another leaves a value the same so many levels deep as it stands. -/
theorem SameBut.sameWithin (hs : h.SameBut h' position v v') (hu : h.valueAt? v position = some u)
    (hu' : h'.valueAt? v' position = some u') (hcontainer : u.isContainer)
    (hcontainer' : u'.isContainer) : h.SameWithin h' position.length v v' := by
  induction position generalizing v v' with
  | nil =>
    cases hu
    cases hu'
    exact .inr ⟨hcontainer, hcontainer'⟩
  | cons c position ih =>
    obtain ⟨w, hw, hu⟩ := exists_child_of_valueAt? hu
    obtain ⟨w', hw', hu'⟩ := exists_child_of_valueAt? hu'
    refine ⟨hs.face, fun d => ?_⟩
    by_cases hd : d = c
    · rw [hd, hw, hw']
      exact .some (ih (hs.child hw hw') hu hu')
    · exact rel_imp (fun _ _ hsame => hsame.sameWithin _) (hs.child_of_ne hd)

theorem SameFace.isContainer_eq (hf : SameFace h h' v v') : v.isContainer = v'.isContainer := by
  cases hf
  all_goals rfl

theorem SameFace.same (hf : SameFace h h' v v') (hv : v.isContainer = false) : h.Same h' v v' := by
  intro position
  cases position with
  | nil => exact .some hf
  | cons c position =>
    rw [valueAt?, valueAt?, child?_eq_none hv, child?_eq_none (hf.isContainer_eq ▸ hv)]
    exact .none

/-- Values that show the same by themselves are the same but for a position if what stands inside of
them is. -/
theorem sameBut_of_child (hf : SameFace h h' v v')
    (hothers : ∀ d, d ≠ c → Option.Rel (h.Same h') (h.child? v d) (h'.child? v' d))
    (hu : h.child? v c = some u) (hu' : h'.child? v' c = some u')
    (hs : h.SameBut h' position u u') : h.SameBut h' (c :: position) v v' := by
  intro other hother
  cases other with
  | nil => exact .some hf
  | cons d other =>
    by_cases hd : d = c
    · subst hd
      rw [valueAt?_of_child hu, valueAt?_of_child hu']
      exact hs other fun hbegins => hother (List.cons_prefix_cons.mpr ⟨rfl, hbegins⟩)
    · have hrel := hothers d hd
      unfold valueAt?
      generalize h.child? v d = w?, h'.child? v' d = w'? at hrel ⊢
      cases hrel with
      | none => exact .none
      | some hsame => exact hsame other

end Children

end Heap

end CallSampler
