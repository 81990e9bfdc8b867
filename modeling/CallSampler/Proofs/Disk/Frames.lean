import CallSampler.Proofs.Disk.Writing
import CallSampler.Proofs.Store.Reload

/-!
# What a save leaves alone

Saving a store may create directories, none of which takes the place of anything, and puts one file
where the store's path leads. So a regular file that is not as it was before is that one, and then
the save succeeded (`Store.locate_of_fileAt?_save`).
-/

namespace CallSampler

namespace Disk

variable {d d' : Disk} {path : Path} {p q : Place} {content : Content}

/-- The content of the regular file at a place, if there is one. -/
def fileAt? (d : Disk) (place : Place) : Option Content :=
  match d.node? place with
  | some (.file content) => some content
  | _ => none

theorem fileAt?_put_directory (hp : p ≠ []) (hfree : d.node? p = none) (q : Place) :
    (d.put p .directory).fileAt? q = d.fileAt? q := by
  unfold fileAt?
  rw [node?_put hp]
  by_cases h : p = q
  · subst h
    rw [if_pos rfl, hfree]
  · rw [if_neg h]

theorem fileAt?_put_file (hp : p ≠ []) (hne : p ≠ q) :
    (d.put p (.file content)).fileAt? q = d.fileAt? q := by
  unfold fileAt?
  rw [node?_put hp, if_neg hne]

/-! ## Creating directories -/

theorem fileAt?_createDirectory (h : d.createDirectory path = .ok d') (q : Place) :
    d'.fileAt? q = d.fileAt? q := by
  obtain ⟨t, -, h⟩ := except_bind_eq_ok h
  split at h
  next => cases h
  next s _ =>
    split at h
    next => cases h
    next =>
      split at h
      next => cases h
      next hfree =>
        cases h
        exact fileAt?_put_directory (by simp) (by simpa using hfree) q

theorem fileAt?_ensureDirectory (d : Disk) (path : Path) (q : Place) :
    (d.ensureDirectory path).2.fileAt? q = d.fileAt? q := by
  unfold ensureDirectory
  split
  next d' h => exact fileAt?_createDirectory h q
  next => split <;> rfl

theorem fileAt?_createAll (fuel : Nat) (d : Disk) (path : Path) (q : Place) :
    (createAll fuel d path).2.fileAt? q = d.fileAt? q := by
  induction fuel generalizing d path with
  | zero => exact fileAt?_ensureDirectory d path q
  | succ fuel ih =>
    unfold createAll
    split
    next => rfl
    next =>
      split
      next parent _ _ =>
        have hparent := ih d parent
        generalize createAll fuel d parent = made at hparent
        obtain ⟨failure?, d₁⟩ := made
        cases failure? with
        | none => exact (fileAt?_ensureDirectory d₁ path q).trans hparent
        | some e => exact hparent
      next => exact fileAt?_ensureDirectory d path q

/-! ## Writing -/

/-- A write changes no file but the one that the path leads to from then on. -/
theorem locate_of_fileAt?_write (h : d.write path content = .ok d')
    (hq : d'.fileAt? q ≠ d.fileAt? q) :
    d'.locate path = .ok q := by
  obtain ⟨place, hplace, hne, rfl⟩ := locate_write h
  by_cases hsame : place = q
  · rw [hplace, hsame]
  · exact absurd (fileAt?_put_file hne hsame) hq

end Disk

namespace Store

theorem fileAt?_makeParent (path : Path) (d : Disk) (q : Place) :
    (makeParent path d).2.fileAt? q = d.fileAt? q := by
  unfold makeParent
  split
  next => rfl
  next parent _ => exact Disk.fileAt?_createAll _ d parent q

/-- A regular file that is not as it was before a save is the file of the store, and the save
succeeded. -/
theorem locate_of_fileAt?_save {s : Store} {d : Disk} {q : Place}
    (hq : (s.save d).2.fileAt? q ≠ d.fileAt? q) :
    (s.save d).2.locate s.path = .ok q ∧ (s.save d).1 = .ok (.written s.size) := by
  have hmade := fileAt?_makeParent s.path d q
  unfold save at hq ⊢
  by_cases hempty : s.isEmpty
  · rw [if_pos hempty] at hq
    exact absurd rfl hq
  · rw [if_neg hempty] at hq ⊢
    generalize makeParent s.path d = made at hmade hq ⊢
    obtain ⟨failure?, d₁⟩ := made
    cases failure? with
    | some e => exact absurd hmade hq
    | none =>
      dsimp only at hq ⊢
      cases hwrite : d₁.write s.path (.text s.toJson.pretty) with
      | error cause =>
        rw [hwrite] at hq
        exact absurd hmade hq
      | ok d₂ =>
        rw [hwrite] at hq
        exact ⟨Disk.locate_of_fileAt?_write hwrite fun h => hq (h.trans hmade), rfl⟩

end Store

end CallSampler
