import CallSampler.Capture
import CallSampler.Proofs.Json.Reading

/-!
# What a capture makes

Whatever an object answers, a capture that goes `n` levels deep makes a well-formed document that
nests at most `n` arrays and objects (`within_of_captureLevels`). The samples of a call keep to that
bound, and land at indices that a machine can count.
-/

namespace CallSampler

variable {answer : Answering} {w w' : World}

theorem integerFits_toInt (i : Int64) : Json.IntegerFits i.toInt := by
  have hl := i.le_toInt
  have hu := i.toInt_lt
  unfold Json.IntegerFits wordLimit
  omega

theorem within_captureFloat (x : Float) (levels : Nat) : (captureFloat x).Within levels := by
  unfold captureFloat
  split
  next => exact ⟨Json.wellFormed_float x, Nat.zero_le _⟩
  next => exact ⟨Json.wellFormed_string _, Nat.zero_le _⟩

theorem within_captureDescription (o : Object) (levels : Nat) :
    (captureDescription o).Within levels := by
  unfold captureDescription
  split <;> exact ⟨Json.wellFormed_string _, Nat.zero_le _⟩

/-- Entries that were assigned one by one make an object one level up. -/
theorem within_ofAssignments {images : List (String × Json)} {levels : Nat}
    (h : ∀ e ∈ images, e.2.Within levels) :
    (Json.object (Entries.ofAssignments images)).Within (levels + 1) := by
  refine Json.within_object ⟨Entries.nodup_keys_ofAssignments images, fun e he => ?_⟩
  obtain ⟨a, ha, hv⟩ := Entries.mem_ofAssignments he
  exact hv ▸ h a ha

/-- A document is well formed and nests at most so deep if those of the contents of its value nest
less. -/
theorem within_of_captureNode {levels : Nat} {inner : Value → Host Json}
    (hi : ∀ {v w j w'}, inner v w = (.ok j, w') → j.Within levels) {v : Value} {j : Json}
    (h : captureNode answer inner v w = (.ok j, w')) : j.Within (levels + 1) := by
  have images : ∀ {items : List Value} {js : List Json} {w w' : World},
      items.mapM inner w = (.ok js, w') → ∀ j ∈ js, j.Within levels := by
    intro items js w w' hjs j hj
    obtain ⟨v, -, w₁, w₂, hv⟩ := Run.mapM_eq_ok hjs j hj
    exact hi hv
  cases v with
  | none =>
    cases h
    exact ⟨Json.wellFormed_null, Nat.zero_le _⟩
  | bool b =>
    cases h
    exact ⟨Json.wellFormed_bool b, Nat.zero_le _⟩
  | int i =>
    cases h
    exact ⟨Json.wellFormed_integer.mpr (integerFits_toInt i), Nat.zero_le _⟩
  | float x =>
    cases h
    exact within_captureFloat x _
  | str s =>
    cases h
    exact ⟨Json.wellFormed_string s, Nat.zero_le _⟩
  | function f =>
    cases h
    exact ⟨Json.wellFormed_string _, Nat.zero_le _⟩
  | list cell =>
    obtain ⟨items, w₁, -, h⟩ := Run.bind_eq_ok h
    obtain ⟨js, w₂, hjs, h⟩ := Run.bind_eq_ok h
    cases h
    exact Json.within_array (images hjs)
  | tuple items =>
    obtain ⟨js, w₁, hjs, h⟩ := Run.bind_eq_ok h
    cases h
    exact Json.within_array (images hjs)
  | dict cell =>
    obtain ⟨entries, w₁, -, h⟩ := Run.bind_eq_ok h
    obtain ⟨es, w₂, hes, h⟩ := Run.bind_eq_ok h
    cases h
    refine within_ofAssignments fun e he => ?_
    obtain ⟨⟨k, v⟩, -, w₃, w₄, hkv⟩ := Run.mapM_eq_ok hes e he
    obtain ⟨key, w₅, -, hkv⟩ := Run.bind_eq_ok hkv
    obtain ⟨image, w₆, hv, hkv⟩ := Run.bind_eq_ok hkv
    cases hkv
    exact hi hv
  | object cell =>
    obtain ⟨o?, w₁, -, h⟩ := Run.bind_eq_ok h
    cases o? with
    | none =>
      cases h
      exact ⟨Json.wellFormed_null, Nat.zero_le _⟩
    | some o =>
      by_cases hc : o.callable
      · simp only [hc, if_true] at h
        cases h
        exact ⟨Json.wellFormed_string _, Nat.zero_le _⟩
      · simp only [hc, Bool.false_eq_true, if_false] at h
        obtain ⟨attributes?, w₂, -, h⟩ := Run.bind_eq_ok h
        cases attributes? with
        | none =>
          cases h
          exact within_captureDescription o _
        | some attributes =>
          obtain ⟨es, w₃, hes, h⟩ := Run.bind_eq_ok h
          cases h
          refine within_ofAssignments fun e he => ?_
          obtain ⟨⟨name, v⟩, -, w₄, w₅, hv⟩ := Run.mapM_eq_ok hes e he
          obtain ⟨image, w₆, himage, hv⟩ := Run.bind_eq_ok hv
          cases hv
          exact hi himage

/-- A capture makes a well-formed document that nests no deeper than it may go. -/
theorem within_of_captureLevels {levels : Nat} {v : Value} {j : Json}
    (h : captureLevels answer levels v w = (.ok j, w')) : j.Within levels := by
  induction levels generalizing v w w' j with
  | zero =>
    cases h
    exact ⟨Json.wellFormed_string _, Nat.zero_le _⟩
  | succ levels ih => exact within_of_captureNode ih h

/-- A sample of a call is the capture of an argument with its index. -/
theorem captureSample_of_captureArguments {maxDepth : Nat} {args : Arguments}
    {paramNames : List String} {samples : List Sample}
    (h : captureArguments answer maxDepth args paramNames w = (.ok samples, w')) :
    ∀ s ∈ samples, ∃ v ∈ args.positional.zipIdx ++ namedArguments args paramNames, ∃ w₁ w₂,
      captureSample answer maxDepth v w₁ = (.ok s, w₂) := by
  obtain ⟨positional, w₁, hp, h⟩ := Run.bind_eq_ok h
  obtain ⟨keywords, w₂, hk, h⟩ := Run.bind_eq_ok h
  cases h
  intro s hs
  rcases List.mem_append.mp hs with hs | hs
  · obtain ⟨v, hv, hs⟩ := Run.mapM_eq_ok hp s hs
    exact ⟨v, List.mem_append_left _ hv, hs⟩
  · obtain ⟨v, hv, hs⟩ := Run.mapM_eq_ok hk s hs
    exact ⟨v, List.mem_append_right _ hv, hs⟩

/-- The samples of a call are well formed and nest at most one level more than the depth limit. -/
theorem within_of_captureArguments {maxDepth : Nat} {args : Arguments} {paramNames : List String}
    {samples : List Sample}
    (h : captureArguments answer maxDepth args paramNames w = (.ok samples, w')) :
    ∀ s ∈ samples, s.2.Within (maxDepth + 1) := by
  intro s hs
  obtain ⟨v, -, w₁, w₂, hv⟩ := captureSample_of_captureArguments h s hs
  obtain ⟨image, w₃, himage, hv⟩ := Run.bind_eq_ok hv
  cases hv
  exact within_of_captureLevels himage

end CallSampler
