import CallSampler.Proofs.Json.RoundTrip

/-!
# The limit of a reader

A reader with more room reads whatever one with less room reads, and to the same document
(`ofTokens?_of_le`). A document that nests deeper than the limit is therefore refused as a whole:
with enough room its text is read to the document itself, so a reader that made anything of it would
have made that, and what a reader makes fits its limit.
-/

namespace CallSampler.Json

namespace Machine

/-- The same reader with so much more room. -/
def widen (k : Nat) (m : Machine) : Machine := { m with room := m.room + k }

variable {k room : Nat} {frames : List Frame} {m m' : Machine} {t : Token}

theorem widen_finish (j : Json) :
    (finish j frames room).widen k = finish j frames (room + k) := by
  cases frames with
  | nil => rfl
  | cons f rest => cases f <;> rfl

theorem begin_widen (h : begin frames room t = some m) :
    begin frames (room + k) t = some (m.widen k) := by
  cases t with
  | null | bool | number | string =>
    cases h
    simp only [begin, widen_finish]
  | openArray | openObject =>
    cases room with
    | zero => cases h
    | succ room =>
      cases h
      simp only [begin, Nat.succ_add, widen]
  | closeArray | closeObject | comma | colon => cases h

/-- More room does not change a step that is taken. -/
theorem step_widen (h : m.step t = some m') : (m.widen k).step t = some (m'.widen k) := by
  obtain ⟨frames, room, mode⟩ := m
  change step { frames, room := room + k, mode } t = _
  cases mode with
  | value => exact begin_widen h
  | firstItem =>
    simp only [step, stepFirstItem] at h ⊢
    split at h
    next =>
      split at h
      next =>
        cases h
        rw [widen_finish, Nat.add_right_comm]
      next => cases h
    next => exact begin_widen h
  | firstKey =>
    simp only [step, stepFirstKey] at h ⊢
    split at h
    next =>
      cases h
      rw [widen_finish, Nat.add_right_comm]
    next =>
      cases h
      rfl
    next => cases h
  | key entries =>
    simp only [step, stepKey] at h ⊢
    split at h
    next =>
      cases h
      rfl
    next => cases h
  | colon entries key =>
    simp only [step, stepColon] at h ⊢
    split at h
    next =>
      cases h
      rfl
    next => cases h
  | separator =>
    simp only [step, stepSeparator] at h ⊢
    split at h
    next => cases h
    next =>
      split at h
      next =>
        cases h
        rfl
      next =>
        cases h
        rw [widen_finish, Nat.add_right_comm]
      next => cases h
    next =>
      split at h
      next =>
        cases h
        rfl
      next =>
        cases h
        rw [widen_finish, Nat.add_right_comm]
      next => cases h
  | done j => cases h

theorem run_widen {ts : List Token} (h : m.run ts = some m') :
    (m.widen k).run ts = some (m'.widen k) := by
  induction ts generalizing m with
  | nil =>
    cases h
    rfl
  | cons t ts ih =>
    obtain ⟨m₁, h₁, h⟩ := Option.bind_eq_some_iff.mp h
    exact Option.bind_eq_some_iff.mpr ⟨m₁.widen k, step_widen h₁, ih h⟩

end Machine

variable {limit limit' : Nat} {j : Json}

/-- A greater limit reads the same. -/
theorem ofTokens?_of_le {ts : List Token} (hle : limit ≤ limit') (h : ofTokens? limit ts = some j) :
    ofTokens? limit' ts = some j := by
  obtain ⟨k, rfl⟩ := Nat.exists_eq_add_of_le hle
  obtain ⟨m, hm, h⟩ := Option.bind_eq_some_iff.mp h
  have hrun : (Machine.start (limit + k)).run ts = some (m.widen k) := Machine.run_widen hm
  rw [ofTokens?, hrun]
  exact h

/-- What is written is read exactly if it does not nest deeper than the limit, and as what is read
from its numbers; otherwise it is refused. -/
theorem ofText?_pretty_eq (hw : j.WellFormed) (hl : j.Legible) (limit : Nat) :
    ofText? limit j.pretty = if j.nesting ≤ limit then some j.reread else none := by
  have hread : ∀ {limit : Nat}, j.nesting ≤ limit →
      ofTokens? limit j.reread.tokens = some j.reread := by
    intro limit hle
    rw [← nesting_reread] at hle
    exact ofTokens?_tokens (hw.reread hl) hle
  have htext := ofText?_pretty_of_legible hw hl limit
  split
  next hle => rw [htext, hread hle]
  next hdeep =>
    cases hother : ofText? limit j.pretty with
    | none => rfl
    | some other =>
      have hother' := ofTokens?_of_le (Nat.le_of_not_le hdeep) (htext.symm.trans hother)
      rw [hread (Nat.le_refl _)] at hother'
      cases hother'
      have hfits := (within_of_ofText? hother).2
      rw [nesting_reread] at hfits
      exact absurd hfits hdeep

end CallSampler.Json
