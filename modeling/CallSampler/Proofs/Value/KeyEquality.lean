import Mathlib
import CallSampler.Value.Basic

/-!
# Equality of dict keys

Keys are compared by value, item by item inside tuples, and by identity where they are cells or
functions, so a comparison never looks into a cell and ends on every key, also on one that contains
itself (`sameKeyWithin_eq`). Floats are the one kind whose equality is not reflexive. It is
symmetric and transitive all the same, and so key equality is a partial equivalence
(`sameKey_comm`, `sameKey_trans`) that holds of a key and itself unless the key has a float in it
that is not a number (`sameKey_self`).
-/

namespace CallSampler.Value

/-! ## Floats -/

section Floats

variable {x y z : Float}

theorem float_beq_comm (x y : Float) : (x == y) = (y == x) := by
  rw [Bool.eq_iff_iff, Float.beq_iff_ne_nan_and_eq, Float.beq_iff_ne_nan_and_eq]
  constructor
  all_goals
    rintro ⟨hx, hy, rfl | ⟨rfl, rfl⟩ | ⟨rfl, rfl⟩⟩
  · exact ⟨hy, hx, .inl rfl⟩
  · exact ⟨hy, hx, .inr (.inr ⟨rfl, rfl⟩)⟩
  · exact ⟨hy, hx, .inr (.inl ⟨rfl, rfl⟩)⟩
  · exact ⟨hy, hx, .inl rfl⟩
  · exact ⟨hy, hx, .inr (.inr ⟨rfl, rfl⟩)⟩
  · exact ⟨hy, hx, .inr (.inl ⟨rfl, rfl⟩)⟩

/-- Only the two zeros are equal without being the same, and of them there are no more than two. -/
theorem float_beq_trans (h : (x == y) = true) (h' : (y == z) = true) : (x == z) = true := by
  rw [Float.beq_iff_ne_nan_and_eq] at h h' ⊢
  obtain ⟨hx, -, h⟩ := h
  obtain ⟨-, hz, h'⟩ := h'
  refine ⟨hx, hz, ?_⟩
  rcases h with rfl | ⟨rfl, rfl⟩ | ⟨rfl, rfl⟩
  · exact h'
  · rcases h' with rfl | ⟨-, rfl⟩ | ⟨-, rfl⟩
    · exact .inr (.inl ⟨rfl, rfl⟩)
    · exact .inr (.inl ⟨rfl, rfl⟩)
    · exact .inl rfl
  · rcases h' with rfl | ⟨-, rfl⟩ | ⟨-, rfl⟩
    · exact .inr (.inr ⟨rfl, rfl⟩)
    · exact .inl rfl
    · exact .inr (.inr ⟨rfl, rfl⟩)

theorem float_beq_self (x : Float) : (x == x) = !x.isNaN := by
  rw [Float.isNaN_eq_decide_eq_nan, Bool.eq_iff_iff, Float.beq_self_iff]
  simp

/-- What is not a number is equal to nothing. -/
theorem float_beq_of_isNaN (h : x.isNaN = true) (y : Float) : (x == y) = false := by
  rw [Float.isNaN_eq_decide_eq_nan, decide_eq_true_eq] at h
  rw [h, Float.nan_beq_eq_false]

end Floats

/-! ## Keys -/

mutual

/-- No float in a key fails to be a number. What a cell holds is no part of a key. -/
def nanFree : Value → Bool
  | .float x => !x.isNaN
  | .tuple items => nanFreeItems items
  | _ => true

def nanFreeItems : List Value → Bool
  | [] => true
  | v :: rest => v.nanFree && nanFreeItems rest

end

mutual

theorem sameKey_comm : ∀ a b : Value, sameKey a b = sameKey b a
  | .tuple as, b => by
    cases b with
    | tuple bs => exact sameKeys_comm as bs
    | _ => rfl
  | .float x, b => by
    cases b with
    | float y => exact float_beq_comm x y
    | _ => rfl
  | .none, b | .bool _, b | .int _, b | .str _, b | .function _, b | .list _, b | .dict _, b
  | .object _, b => by cases b <;> simp [sameKey, BEq.comm]

theorem sameKeys_comm : ∀ as bs : List Value, sameKeys as bs = sameKeys bs as
  | [], [] => rfl
  | [], _ :: _ => rfl
  | _ :: _, [] => rfl
  | a :: as, b :: bs => by
    rw [sameKeys, sameKeys, sameKey_comm a b, sameKeys_comm as bs]

end

mutual

theorem sameKey_trans : ∀ {a b c : Value}, sameKey a b = true → sameKey b c = true →
    sameKey a c = true
  | .tuple as, b, c, h, h' => by
    cases b with
    | tuple bs =>
      cases c with
      | tuple cs => exact sameKeys_trans h h'
      | _ => cases h'
    | _ => cases h
  | .float x, b, c, h, h' => by
    cases b with
    | float y =>
      cases c with
      | float z => exact float_beq_trans h h'
      | _ => cases h'
    | _ => cases h
  | .none, b, c, h, h' | .bool _, b, c, h, h' | .int _, b, c, h, h' | .str _, b, c, h, h'
  | .function _, b, c, h, h' | .list _, b, c, h, h' | .dict _, b, c, h, h'
  | .object _, b, c, h, h' => by
    cases b <;> cases c <;> simp_all [sameKey]

theorem sameKeys_trans : ∀ {as bs cs : List Value}, sameKeys as bs = true →
    sameKeys bs cs = true → sameKeys as cs = true
  | [], [], _, _, h' => h'
  | [], _ :: _, _, h, _ => by cases h
  | _ :: _, [], _, h, _ => by cases h
  | _ :: _, _ :: _, [], _, h' => by cases h'
  | a :: as, b :: bs, c :: cs, h, h' => by
    rw [sameKeys, Bool.and_eq_true] at h h' ⊢
    exact ⟨sameKey_trans h.1 h'.1, sameKeys_trans h.2 h'.2⟩

end

mutual

theorem sameKey_self : ∀ a : Value, sameKey a a = a.nanFree
  | .tuple as => sameKeys_self as
  | .float x => float_beq_self x
  | .none => rfl
  | .bool _ | .int _ | .str _ | .function _ | .list _ | .dict _ | .object _ => BEq.rfl

theorem sameKeys_self : ∀ as : List Value, sameKeys as as = nanFreeItems as
  | [] => rfl
  | a :: as => by
    rw [sameKeys, nanFreeItems, sameKey_self a, sameKeys_self as]

end

/-- Lookups by key equality are lookups by a partial equivalence. -/
theorem partialEquivBEq_sameKey : @PartialEquivBEq Value ⟨sameKey⟩ :=
  letI : BEq Value := ⟨sameKey⟩
  { symm := fun {a b} h => (sameKey_comm b a).trans h
    trans := sameKey_trans }

/-! ## Comparisons end -/

/-- Two tuples are the same key if they have one length and agree wherever both have an item. -/
theorem sameKeys_eq (as bs : List Value) :
    sameKeys as bs =
      (decide (as.length = bs.length) && (as.zip bs).all fun e => sameKey e.1 e.2) := by
  induction as generalizing bs with
  | nil => cases bs <;> rfl
  | cons a as ih =>
    cases bs with
    | nil => rfl
    | cons b bs =>
      simp only [sameKeys, ih, List.zip_cons_cons, List.all_cons, List.length_cons,
        Nat.add_right_cancel_iff, Bool.and_left_comm]

/-- Compare keys with so many comparisons, one inside the other, at most. -/
def sameKeyWithin : Nat → Value → Value → Option Bool
  | 0, _, _ => Option.none
  | n + 1, a, b =>
    match a, b with
    | .none, .none => some true
    | .bool a, .bool b => some (a == b)
    | .int a, .int b => some (a == b)
    | .float a, .float b => some (a == b)
    | .str a, .str b => some (a == b)
    | .tuple as, .tuple bs =>
      if as.length = bs.length then (as.zip bs).allM fun e => sameKeyWithin n e.1 e.2
      else some false
    | .list a, .list b => some (a == b)
    | .dict a, .dict b => some (a == b)
    | .function f, .function g => some (f.number == g.number)
    | .object a, .object b => some (a == b)
    | _, _ => some false

mutual

/-- How many tuples are nested in a key. -/
def tupleLevels : Value → Nat
  | .tuple items => tupleLevelsItems items + 1
  | _ => 0

def tupleLevelsItems : List Value → Nat
  | [] => 0
  | v :: rest => max v.tupleLevels (tupleLevelsItems rest)

end

theorem tupleLevels_le_of_mem {v : Value} {items : List Value} (h : v ∈ items) :
    v.tupleLevels ≤ tupleLevelsItems items := by
  induction items with
  | nil => cases h
  | cons w rest ih =>
    rw [tupleLevelsItems]
    rcases List.mem_cons.mp h with rfl | h
    · exact Nat.le_max_left _ _
    · exact Nat.le_trans (ih h) (Nat.le_max_right _ _)

theorem allM_eq_some {α : Type} {f : α → Option Bool} {g : α → Bool} {xs : List α}
    (h : ∀ x ∈ xs, f x = some (g x)) : xs.allM f = some (xs.all g) := by
  induction xs with
  | nil => rfl
  | cons x rest ih =>
    obtain ⟨hx, hrest⟩ := List.forall_mem_cons.mp h
    rw [List.allM, hx, List.all_cons]
    cases g x with
    | true => exact ih hrest
    | false => rfl

/-- A comparison goes one level deeper for each tuple of the first key, and no deeper. -/
theorem sameKeyWithin_eq {n : Nat} {a : Value} (h : a.tupleLevels < n) (b : Value) :
    sameKeyWithin n a b = some (sameKey a b) := by
  induction n generalizing a b with
  | zero => cases h
  | succ n ih =>
    cases a with
    | tuple as =>
      cases b with
      | tuple bs =>
        have hitems : ∀ e ∈ as.zip bs, sameKeyWithin n e.1 e.2 = some (sameKey e.1 e.2) := by
          intro e he
          have hlevels := tupleLevels_le_of_mem (List.of_mem_zip he).1
          rw [tupleLevels] at h
          exact ih (by omega) e.2
        rw [sameKeyWithin, sameKey, sameKeys_eq, allM_eq_some hitems]
        by_cases hlength : as.length = bs.length <;> simp [hlength]
      | _ => rfl
    | _ => cases b <;> rfl

end CallSampler.Value
