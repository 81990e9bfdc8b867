import CallSampler.Capture

/-!
# Depths and levels

A capture from a depth on goes down one depth at a time until it is beyond the limit. As long as the
limit is not the greatest word, no depth on the way is, and the capture goes as many levels deep as
there are depths from its own to the limit (`captureAt_eq_levels`). Under the greatest limit it may
come to the last depth that there is, and then what the host does about the sum decides
(`captureFrom_eq_down`). What holds of every way to end a capture and is handed on from the inside
of a value to the value holds of all captures, whichever limit they have (`captureAt_relates`).
-/

namespace CallSampler

variable {o : Overflow} {answer answer' : Answering} {maxDepth depth : UInt64}

/-! ## Counting down -/

theorem captureLevels_succ (answer : Answering) (levels : Nat) :
    captureLevels answer (levels + 1) = captureNode answer (captureLevels answer levels) := rfl

/-- Under a limit that is not the greatest word, the depth counts down the levels that are left. -/
theorem captureAt_eq_levels (h : maxDepth + 1 ≠ 0) (depth : UInt64) :
    captureAt o answer maxDepth depth =
      captureLevels answer (maxDepth.toNat + 1 - depth.toNat) := by
  generalize hlevels : maxDepth.toNat + 1 - depth.toNat = levels
  induction levels generalizing depth with
  | zero =>
    exact captureAt_of_lt (UInt64.lt_iff_toNat_lt.mpr (by omega))
  | succ levels ih =>
    have hle : depth ≤ maxDepth := UInt64.le_iff_toNat_le.mpr (by omega)
    have hdepth : depth + 1 ≠ 0 := Word.add_one_ne_zero_of_le hle h
    have hnext := Word.toNat_add_one_of_ne hdepth
    rw [captureAt_of_le hle, captureBelow_of_ne hdepth, ih (depth + 1) (by omega),
      captureLevels_succ]

/-- From depth zero on, everything down to the limit is captured. -/
theorem captureAt_zero (h : maxDepth + 1 ≠ 0) :
    captureAt o answer maxDepth 0 = capture answer maxDepth.toNat :=
  captureAt_eq_levels h 0

/-- Under the greatest limit, the depths that are left are those to the last that there is. -/
theorem captureFrom_eq_down (h : maxDepth + 1 = 0) (beyond : Value → Host Json) (depth : UInt64) :
    captureFrom answer beyond maxDepth depth =
      captureDown answer beyond (wordLimit - depth.toNat) := by
  rw [Word.add_one_eq_zero_iff] at h
  generalize hlevels : wordLimit - depth.toNat = levels
  induction levels generalizing depth with
  | zero =>
    have hlt := Word.toNat_lt depth
    omega
  | succ levels ih =>
    have hle : ¬maxDepth < depth := by
      rw [UInt64.lt_iff_toNat_lt]
      omega
    rw [captureFrom, if_neg hle]
    by_cases hlast : depth + 1 = 0
    · rw [if_pos hlast]
      rw [Word.add_one_eq_zero_iff] at hlast
      obtain rfl : levels = 0 := by omega
      rfl
    · have hnext := Word.toNat_add_one_of_ne hlast
      rw [if_neg hlast, ih (depth + 1) (by omega)]
      rfl

/-- Whatever the limit, the levels that are left are captured alike. Only what is below them
differs. -/
theorem exists_captureAt_eq_down (o : Overflow) (answer : Answering) (maxDepth depth : UInt64) :
    ∃ beyond, captureAt o answer maxDepth depth =
      captureDown answer beyond (maxDepth.toNat + 1 - depth.toNat) := by
  by_cases h : maxDepth + 1 = 0
  · have hlast := Word.add_one_eq_zero_iff.mp h
    exact ⟨_, by rw [hlast, captureAt, captureFrom_eq_down h]⟩
  · exact ⟨_, captureAt_eq_levels h depth⟩

/-- At the last depth, under the greatest limit, a host that does not check its sums starts again at
the first. What is inside of the value is captured as if nothing were around it. -/
theorem captureAt_last (h : maxDepth + 1 = 0) : captureAt .wraps answer maxDepth maxDepth =
    captureNode answer (captureDown answer (fun _ => Run.exhaust) wordLimit) := by
  rw [captureAt_of_le (UInt64.le_refl _), captureBelow, if_pos h, captureOverflow,
    captureFrom_eq_down h]
  rfl

/-- A host that checks its sums panics there. -/
theorem captureAt_last_panics (h : maxDepth + 1 = 0) : captureAt .panics answer maxDepth maxDepth =
    captureNode answer fun _ => Run.panic (.text Overflow.message) := by
  rw [captureAt_of_le (UInt64.le_refl _), captureBelow, if_pos h, captureOverflow]

/-! ## All captures -/

/-- Captures are related under any limit if those are that end them and those of values are whose
contents are. -/
theorem captureFrom_relates {R : (Value → Host Json) → (Value → Host Json) → Prop}
    {beyond beyond' : Value → Host Json} (hmarker : R captureMarker captureMarker)
    (hbeyond : R beyond beyond')
    (hnode : ∀ inner inner', R inner inner' →
      R (captureNode answer inner) (captureNode answer' inner')) (maxDepth depth : UInt64) :
    R (captureFrom answer beyond maxDepth depth) (captureFrom answer' beyond' maxDepth depth) := by
  fun_induction captureFrom answer beyond maxDepth depth with
  | case1 depth hlt =>
    rw [captureFrom, if_pos hlt]
    exact hmarker
  | case2 depth hle hlast =>
    rw [captureFrom, if_neg hle, if_pos hlast]
    exact hnode _ _ hbeyond
  | case3 depth hle hlast ih =>
    have hdeeper : captureFrom answer' beyond' maxDepth depth =
        captureNode answer' (captureFrom answer' beyond' maxDepth (depth + 1)) := by
      rw [captureFrom, if_neg hle, if_neg hlast]
    rw [hdeeper]
    exact hnode _ _ ih

theorem captureAt_relates {R : (Value → Host Json) → (Value → Host Json) → Prop}
    (hmarker : R captureMarker captureMarker)
    (hpanic : R (fun _ => Run.panic (.text Overflow.message))
      fun _ => Run.panic (.text Overflow.message))
    (hexhaust : R (fun _ => Run.exhaust) fun _ => Run.exhaust)
    (hnode : ∀ inner inner', R inner inner' →
      R (captureNode answer inner) (captureNode answer' inner'))
    (o : Overflow) (maxDepth depth : UInt64) :
    R (captureAt o answer maxDepth depth) (captureAt o answer' maxDepth depth) := by
  refine captureFrom_relates hmarker ?_ hnode maxDepth depth
  cases o with
  | wraps => exact captureFrom_relates hmarker hexhaust hnode maxDepth 0
  | panics => exact hpanic

end CallSampler
