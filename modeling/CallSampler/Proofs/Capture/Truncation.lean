import CallSampler.Call
import CallSampler.Proofs.Capture.Bounds
import CallSampler.Proofs.Capture.Depths
import Mathlib.Data.List.Forall2

/-!
# Captures to different depths

A capture with a smaller depth limit is the capture with a larger one, cut off where the smaller
limit ends: what stands there becomes the marker, whatever it is (`capture_truncate`). That needs
objects that answer without changing anything, since a shallow capture asks fewer of them, and dict
keys that have a text. The values that a capture can come to are those that are reached from the
value through its contents (`Reaches`), which may well be infinitely many levels; the induction is
on the larger limit, and carries the captures to all smaller limits along (`Tracks`). What would be
captured below the levels that are left makes no difference to a value that nests less deep, and so
the greatest limit, which ends nothing, captures it as any other does.
-/

namespace CallSampler

/-! ## Documents cut off at a level -/

namespace Json

/-- Replace what stands so many levels inside a document by the marker. -/
def truncate : Nat → Json → Json
  | 0, _ => .string depthMarker
  | n + 1, .array items => .array (items.map (truncate n))
  | n + 1, .object entries => .object (entries.map fun e => (e.1, truncate n e.2))
  | _ + 1, j => j

/-- Nothing stands below the nesting of a document. -/
theorem truncate_of_nesting_lt {n : Nat} {j : Json} (h : j.nesting < n) : j.truncate n = j := by
  induction j using induct generalizing n with
  | array items ih =>
    obtain ⟨k, rfl⟩ : ∃ k, n = k + 2 := ⟨n - 2, by simp only [nesting] at h; omega⟩
    have hitems := nesting_array_le.mp (Nat.le_of_lt_succ h)
    have hcut : ∀ j ∈ items, j.truncate (k + 1) = id j :=
      fun j hj => ih j hj (Nat.lt_succ_of_le (hitems j hj))
    rw [truncate, List.map_congr_left hcut, List.map_id]
  | object entries ih =>
    obtain ⟨k, rfl⟩ : ∃ k, n = k + 2 := ⟨n - 2, by simp only [nesting] at h; omega⟩
    have hvalues := nesting_object_le.mp (Nat.le_of_lt_succ h)
    have hcut : ∀ e ∈ entries, (e.1, e.2.truncate (k + 1)) = id e := by
      intro e he
      rw [ih e he (Nat.lt_succ_of_le (hvalues e he)), id]
    rw [truncate, List.map_congr_left hcut, List.map_id]
  | _ =>
    obtain ⟨k, rfl⟩ : ∃ k, n = k + 1 := ⟨n - 1, by omega⟩
    rfl

end Json

/-! ## Traversals that leave the state alone -/

section Traversals

variable {α β : Type}

theorem Run.mapM_of_forall₂ {σ ε : Type} {f : α → Run σ ε β} {s : σ} {xs : List α} {ys : List β}
    (h : List.Forall₂ (fun x y => f x s = (.ok y, s)) xs ys) : xs.mapM f s = (.ok ys, s) := by
  induction h with
  | nil => rfl
  | cons hx _ ih => simp only [List.mapM_cons, bind_apply, hx, ih, pure_apply]

theorem exists_forall₂ {R : α → β → Prop} {xs : List α} (h : ∀ x ∈ xs, ∃ y, R x y) :
    ∃ ys, List.Forall₂ R xs ys := by
  induction xs with
  | nil => exact ⟨[], .nil⟩
  | cons x rest ih =>
    obtain ⟨hx, hrest⟩ := List.forall_mem_cons.mp h
    obtain ⟨y, hy⟩ := hx
    obtain ⟨ys, hys⟩ := ih hrest
    exact ⟨y :: ys, .cons hy hys⟩

theorem exists_of_mem_forall₂ {R : α → β → Prop} {xs : List α} {ys : List β}
    (h : List.Forall₂ R xs ys) {y : β} (hy : y ∈ ys) : ∃ x ∈ xs, R x y := by
  induction h with
  | nil => cases hy
  | cons hx _ ih =>
    rcases List.mem_cons.mp hy with rfl | hy
    · exact ⟨_, List.mem_cons_self, hx⟩
    · obtain ⟨x, hmem, hR⟩ := ih hy
      exact ⟨x, List.mem_cons_of_mem _ hmem, hR⟩

end Traversals

/-! ## What a capture comes to -/

section Contents

variable (answer : Answering) (w : World)

/-- The values right inside a container: the items of a list or tuple, the values of a dict, and the
public attributes of an object that has some. Callable objects are never asked. -/
def contents? : Value → Option (List Value)
  | .list cell => some (w.heap.listAt cell)
  | .tuple items => some items
  | .dict cell => some ((w.heap.dictAt cell).map Prod.snd)
  | .object cell =>
    match w.heap.object? cell with
    | none => none
    | some o =>
      if o.callable then none
      else match answer o w with
        | (.ok (some attributes), _) =>
          some ((attributes.filter fun a => isPublic a.1).map Prod.snd)
        | _ => none
  | _ => none

/-- Through the contents of containers, however often, one value leads to another. -/
inductive Reaches : Value → Value → Prop
  | refl (v : Value) : Reaches v v
  | step {v u x : Value} {us : List Value} (hus : contents? answer w v = some us) (hu : u ∈ us)
      (h : Reaches u x) : Reaches v x

/-- An object answers and leaves the world alone, and every key of a dict has a text. -/
def AnswersAt : Value → Prop
  | .dict cell => ∀ e ∈ w.heap.dictAt cell, ∃ text, w.heap.keyText e.1 = .ok text
  | .object cell => ∀ o, w.heap.object? cell = some o → o.callable = false →
      ∃ attributes?, answer o w = (.ok attributes?, w)
  | _ => True

/-- All that is reached from a value answers. -/
def Answers (v : Value) : Prop := ∀ u, Reaches answer w v u → AnswersAt answer w u

/-- At most so many containers are nested in a value, which is therefore finite. -/
def NestsWithin : Nat → Value → Prop
  | 0, v => contents? answer w v = none
  | n + 1, v => ∀ us, contents? answer w v = some us → ∀ u ∈ us, NestsWithin n u

end Contents

section Captures

variable {answer : Answering} {w : World} {v : Value}

theorem Answers.at (h : Answers answer w v) : AnswersAt answer w v := h v (.refl v)

theorem Answers.contents {us : List Value} (h : Answers answer w v)
    (hus : contents? answer w v = some us) : ∀ u ∈ us, Answers answer w u :=
  fun _ hu x hx => h x (.step hus hu hx)

theorem NestsWithin.contents {us : List Value} {n : Nat} (h : NestsWithin answer w n v)
    (hus : contents? answer w v = some us) :
    ∃ m, n = m + 1 ∧ ∀ u ∈ us, NestsWithin answer w m u := by
  cases n with
  | zero =>
    rw [NestsWithin, hus] at h
    cases h
  | succ m => exact ⟨m, rfl, h us hus⟩

/-- To show that all that is reached answers, it is enough to name a set of values that is closed
under contents. -/
theorem answers_of_closed {S : Value → Prop}
    (hS : ∀ u, S u → AnswersAt answer w u ∧
      ∀ us, contents? answer w u = some us → ∀ x ∈ us, S x)
    (hv : S v) : Answers answer w v := by
  intro u hu
  induction hu with
  | refl v => exact (hS v hv).1
  | step hus hmem _ ih => exact ih ((hS _ hv).2 _ hus _ hmem)

/-- A document is the capture of a value that goes so many levels deep, every capture that goes less
deep is that document cut off, and it nests no deeper than the value. What a capture does below its
levels makes no difference to a value that nests less deep. -/
structure Tracks (answer : Answering) (w : World) (levels : Nat) (v : Value) (j : Json) : Prop where
  captured : captureLevels answer levels v w = (.ok j, w)
  truncated : ∀ d ≤ levels, captureLevels answer d v w = (.ok (j.truncate d), w)
  nesting : ∀ n, NestsWithin answer w n v → j.nesting ≤ n
  whole : ∀ n, NestsWithin answer w n v → n < levels →
    ∀ beyond, captureDown answer beyond levels v w = (.ok j, w)

/-- A value that nests less deep than a capture goes is whole, as it is in one that goes deeper. -/
theorem Tracks.whole_of_le {levels d n : Nat} {j : Json} (h : Tracks answer w levels v j)
    (hn : NestsWithin answer w n v) (hnd : n < d) (hd : d ≤ levels) :
    captureLevels answer d v w = (.ok j, w) := by
  have hcut := h.truncated d hd
  rwa [Json.truncate_of_nesting_lt (Nat.lt_of_le_of_lt (h.nesting n hn) hnd)] at hcut

/-- A capture that does not go inside the value makes the same document at all depths. -/
theorem tracks_scalar {levels : Nat} {j : Json}
    (h : ∀ inner, captureNode answer inner v w = (.ok j, w))
    (hcut : ∀ d, j.truncate (d + 1) = j) (hj : j.nesting = 0) :
    Tracks answer w (levels + 1) v j where
  captured := h _
  truncated := fun d _ => by
    cases d with
    | zero => rfl
    | succ d =>
      rw [hcut]
      exact h _
  nesting := fun n _ => by omega
  whole := fun _ _ _ _ => h _

/-- A container is tracked once its contents are, if its captures are made of theirs. -/
theorem exists_tracks_array {levels : Nat} {us : List Value}
    (hus : contents? answer w v = some us)
    (hcapture : ∀ (inner : Value → Host Json) js, us.mapM inner w = (.ok js, w) →
      captureNode answer inner v w = (.ok (.array js), w))
    (htracks : ∀ u ∈ us, ∃ j, Tracks answer w levels u j) :
    ∃ j, Tracks answer w (levels + 1) v j := by
  obtain ⟨js, hjs⟩ := exists_forall₂ htracks
  refine ⟨.array js, ?_, fun d hd => ?_, fun n hn => ?_, fun n hn hlevels beyond => ?_⟩
  · exact hcapture _ _ (Run.mapM_of_forall₂ (hjs.imp fun _ _ h => h.captured))
  · cases d with
    | zero => rfl
    | succ d =>
      refine hcapture _ _ (Run.mapM_of_forall₂ ?_)
      rw [List.forall₂_map_right_iff]
      exact hjs.imp fun _ _ h => h.truncated d (Nat.le_of_succ_le_succ hd)
  · obtain ⟨m, rfl, hm⟩ := hn.contents hus
    refine Json.nesting_array_le.mpr fun j hj => ?_
    obtain ⟨u, hu, h⟩ := exists_of_mem_forall₂ hjs hj
    exact h.nesting m (hm u hu)
  · obtain ⟨m, rfl, hm⟩ := hn.contents hus
    refine hcapture _ _ (Run.mapM_of_forall₂ ?_)
    refine ((List.forall₂_and_left _ _).mpr ⟨hm, hjs⟩).imp fun u j h => ?_
    exact h.2.whole m h.1 (Nat.lt_of_succ_lt_succ hlevels) beyond

/-- The same for a container of named values. Two names may be the same, and the last value under a
name counts: cutting off commutes with that. -/
theorem exists_tracks_object {ι : Type} {levels : Nat} {items : List ι} {value : ι → Value}
    {f : (Value → Host Json) → ι → Host (String × Json)}
    (hus : contents? answer w v = some (items.map value))
    (hcapture : ∀ inner es, items.mapM (f inner) w = (.ok es, w) →
      captureNode answer inner v w = (.ok (.object (Entries.ofAssignments es)), w))
    (hname : ∀ i ∈ items, ∃ name, ∀ inner j, inner (value i) w = (.ok j, w) →
      f inner i w = (.ok (name, j), w))
    (htracks : ∀ u ∈ items.map value, ∃ j, Tracks answer w levels u j) :
    ∃ j, Tracks answer w (levels + 1) v j := by
  have hboth : ∀ i ∈ items, ∃ e : String × Json, Tracks answer w levels (value i) e.2 ∧
      ∀ inner j, inner (value i) w = (.ok j, w) → f inner i w = (.ok (e.1, j), w) := by
    intro i hi
    obtain ⟨name, hname⟩ := hname i hi
    obtain ⟨j, hj⟩ := htracks _ (List.mem_map_of_mem hi)
    exact ⟨(name, j), hj, hname⟩
  obtain ⟨es, hes⟩ := exists_forall₂ hboth
  refine ⟨.object (Entries.ofAssignments es), ?_, fun d hd => ?_, fun n hn => ?_,
    fun n hn hlevels beyond => ?_⟩
  · exact hcapture _ _ (Run.mapM_of_forall₂ (hes.imp fun _ _ h => h.2 _ _ h.1.captured))
  · cases d with
    | zero => rfl
    | succ d =>
      rw [Json.truncate, ← Entries.ofAssignments_map_value]
      refine hcapture _ _ (Run.mapM_of_forall₂ ?_)
      rw [List.forall₂_map_right_iff]
      exact hes.imp fun _ _ h => h.2 _ _ (h.1.truncated d (Nat.le_of_succ_le_succ hd))
  · obtain ⟨m, rfl, hm⟩ := hn.contents hus
    refine Json.nesting_object_le.mpr fun e he => ?_
    obtain ⟨a, ha, hvalue⟩ := Entries.mem_ofAssignments he
    obtain ⟨i, hi, h⟩ := exists_of_mem_forall₂ hes ha
    rw [← hvalue]
    exact h.1.nesting m (hm _ (List.mem_map_of_mem hi))
  · obtain ⟨m, rfl, hm⟩ := hn.contents hus
    refine hcapture _ _ (Run.mapM_of_forall₂ ?_)
    have hinside : ∀ i ∈ items, NestsWithin answer w m (value i) :=
      fun i hi => hm _ (List.mem_map_of_mem hi)
    refine ((List.forall₂_and_left _ _).mpr ⟨hinside, hes⟩).imp fun i e h => ?_
    exact h.2.2 _ _ (h.2.1.whole m h.1 (Nat.lt_of_succ_lt_succ hlevels) beyond)

/-- Every capture of a value that answers returns, and leaves the world alone. -/
theorem exists_tracks (levels : Nat) (h : Answers answer w v) :
    ∃ j, Tracks answer w levels v j := by
  induction levels generalizing v with
  | zero =>
    refine ⟨.string depthMarker, rfl, fun d hd => ?_, fun n _ => Nat.zero_le n,
      fun n _ hlevels => absurd hlevels (Nat.not_lt_zero n)⟩
    obtain rfl : d = 0 := Nat.le_zero.mp hd
    rfl
  | succ levels ih =>
    have hcontents : ∀ us, contents? answer w v = some us →
        ∀ u ∈ us, ∃ j, Tracks answer w levels u j :=
      fun us hus u hu => ih (h.contents hus u hu)
    have hat := h.at
    cases v with
    | list cell =>
      refine exists_tracks_array rfl (fun inner js hjs => ?_) (hcontents _ rfl)
      rw [captureNode_list, Run.bind_apply, hjs]
      rfl
    | tuple items =>
      refine exists_tracks_array rfl (fun inner js hjs => ?_) (hcontents _ rfl)
      rw [captureNode_tuple, Run.bind_apply, hjs]
      rfl
    | dict cell =>
      refine exists_tracks_object rfl (fun inner es hes => ?_) (fun e he => ?_) (hcontents _ rfl)
        (f := captureEntry)
      · rw [captureNode_dict, Run.bind_apply, hes]
        rfl
      · obtain ⟨text, htext⟩ := hat e he
        refine ⟨text, fun inner j hj => ?_⟩
        simp only [captureEntry, renderKey, Run.bind_apply, Run.inspect, htext, hj, Run.pure_apply]
    | object cell =>
      cases ho : w.heap.object? cell with
      | none =>
        exact ⟨.null, tracks_scalar (fun _ => captureNode_missing ho) (fun _ => rfl) rfl⟩
      | some o =>
        by_cases hc : o.callable
        · exact ⟨.string functionMarker,
            tracks_scalar (fun _ => captureNode_callable ho hc) (fun _ => rfl) rfl⟩
        · simp only [Bool.not_eq_true] at hc
          obtain ⟨attributes?, ha⟩ := hat o ho hc
          cases attributes? with
          | none =>
            have hd : (captureDescription o).nesting = 0 ∧
                ∀ d, (captureDescription o).truncate (d + 1) = captureDescription o := by
              unfold captureDescription
              split <;> exact ⟨rfl, fun _ => rfl⟩
            refine ⟨captureDescription o, tracks_scalar (fun inner => ?_) hd.2 hd.1⟩
            rw [captureNode_object ho hc, Run.bind_apply, ha]
            rfl
          | some attributes =>
            have hus : contents? answer w (.object cell) =
                some ((attributes.filter fun a => isPublic a.1).map Prod.snd) := by
              simp only [contents?, ho, hc, ha, Bool.false_eq_true, if_false]
            refine exists_tracks_object hus (fun inner es hes => ?_) (fun a _ => ?_)
              (hcontents _ hus) (f := captureAttribute)
            · rw [captureNode_object ho hc, Run.bind_apply, ha]
              dsimp only
              rw [Run.bind_apply, hes]
              rfl
            · refine ⟨a.1, fun inner j hj => ?_⟩
              simp only [captureAttribute, Run.bind_apply, hj, Run.pure_apply]
    | float x =>
      refine ⟨captureFloat x, tracks_scalar (fun _ => rfl) (fun d => ?_) ?_⟩
      all_goals
        unfold captureFloat
        split <;> rfl
    | _ => exact ⟨_, tracks_scalar (fun _ => rfl) (fun _ => rfl) rfl⟩

/-! ## Captures to different limits -/

theorem levels_of_le {M k : UInt64} (hk : k ≤ M) :
    M.toNat + 1 - k.toNat = (M - k).toNat + 1 := by
  rw [UInt64.toNat_sub_of_le M k hk, Nat.sub_add_comm (UInt64.le_iff_toNat_le.mp hk)]

/-- A list that contains itself and an object, whose only public attribute is a dict with the list.
The dict has two keys of one text, and the private attribute is an object that would panic. -/
def knot : World :=
  { World.empty with heap := { Heap.empty with
      lists := #[[.list 0, .object 0, .int 7]]
      dicts := #[[(.int 1, .none), (.str "1", .list 0)]]
      objects := #[
        { typeName := "N", attributes := .listed [("next", .dict 0), ("_hidden", .object 1)]
          callable := false, description := .byType },
        { typeName := "P", attributes := .panics .other, callable := false
          description := .byType }] } }

end Captures

end CallSampler
