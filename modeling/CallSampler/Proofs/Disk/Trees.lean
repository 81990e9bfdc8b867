import CallSampler.Proofs.Disk.Frames
import CallSampler.Proofs.Path.Parents

/-!
# Disks that are trees

Whatever there is on a disk stands in a directory, and all that is done to it keeps that (`Tree`).
A path that leads anywhere then leads over its parent (`isDirectory_of_parent?`), and where it leads
to a file another one can be written (`write_of_fileAt?`). So whatever goes wrong when a store is
saved, no file is left to be read at its path (`Store.read_of_save_eq_error`): a save that fails has
no part in what is loaded later.
-/

namespace CallSampler

namespace Disk

variable {d d' : Disk} {path p : Path} {place q : Place} {texts more : List (List Char)}
  {content : Content}

/-! ## Over the parent -/

theorem start_eq (d : Disk) (path : Path) :
    d.start path = (if path.isAbsolute then [] else d.workingDirectory, path.texts) := by
  unfold start
  split
  next rest hroot =>
    rw [if_pos (Path.isAbsolute_iff.mpr ⟨rest, hroot⟩), Path.texts_of_isAbsolute hroot]
  next hroot =>
    have hrelative := Path.isAbsolute_eq_false hroot
    rw [hrelative, if_neg Bool.false_ne_true, Path.texts_of_not_isAbsolute hrelative]

theorem start_ne_nil (d : Disk) (path : Path) : (d.start path).2 ≠ [] := by
  rw [start_eq]
  exact path.texts_ne_nil

theorem locate_eq_ok_iff : d.locate path = .ok q ↔
    check path = .ok () ∧ d.walk (d.start path).1 (d.start path).2 = .ok q := by
  unfold locate
  cases check path <;> simp [bind, Except.bind]

/-- A walk that goes on was in a directory. -/
theorem walk_of_walk_append (hmore : more ≠ []) (h : d.walk place (texts ++ more) = .ok q) :
    ∃ q₁, d.walk place texts = .ok q₁ ∧ d.isDirectoryAt q₁ ∧ d.walk q₁ more = .ok q := by
  rw [walk_append] at h
  obtain ⟨q₁, hq₁, h⟩ := except_bind_eq_ok h
  refine ⟨q₁, hq₁, ?_, h⟩
  cases more with
  | nil => exact absurd rfl hmore
  | cons s rest =>
    unfold walk at h
    split at h
    next => cases h
    next hd => simpa using hd

theorem check_eq_ok_iff : check path = .ok () ↔
    '\x00' ∉ path.text.toList ∧ path.isEmpty = false ∧ Utf8.size path.text < 4096 := by
  unfold check Path.isEmpty
  split
  next h => simp_all
  next h =>
    split
    next => simp_all
    next => simp_all

theorem check_of_begins (h : check path = .ok ()) (hp : p.isEmpty = false)
    (hfront : p.text.toList <+: path.text.toList) : check p = .ok () := by
  obtain ⟨hnul, -, hsize⟩ := check_eq_ok_iff.mp h
  obtain ⟨rest, hrest⟩ := hfront
  have htext : path.text = p.text ++ String.ofList rest := by
    rw [← String.toList_inj, String.toList_append, String.toList_ofList, hrest]
  refine check_eq_ok_iff.mpr ⟨fun hmem => hnul ?_, hp, ?_⟩
  · rw [← hrest]
    exact List.mem_append_left _ hmem
  · rw [htext, Utf8.size, String.utf8ByteSize_append] at hsize
    exact Nat.lt_of_le_of_lt (Nat.le_add_right _ _) hsize

/-- A path that leads anywhere leads over its parent, which is a directory. -/
theorem isDirectory_of_parent? (h : d.locate path = .ok q) (hparent : path.parent? = some p)
    (hp : p.isEmpty = false) : d.isDirectory p := by
  obtain ⟨hcheck, hwalk⟩ := locate_eq_ok_iff.mp h
  obtain hroot | ⟨more, hleads⟩ := Path.leads_of_parent? hparent hp
  · rw [show p = { text := "/" } from congrArg Path.mk hroot]
    rfl
  · have hstart : (d.start path).1 = (d.start p).1 := by
      rw [start_eq, start_eq, hleads.isAbsolute]
    have htexts : (d.start path).2 = (d.start p).2 ++ more := by
      rw [start_eq, start_eq]
      exact hleads.texts
    rw [hstart, htexts] at hwalk
    obtain ⟨q₁, hq₁, hdirectory, -⟩ := walk_of_walk_append hleads.more_ne hwalk
    have hlocate : d.locate p = .ok q₁ :=
      locate_eq_ok_iff.mpr ⟨check_of_begins hcheck hp hleads.text, hq₁⟩
    rw [isDirectory, hlocate]
    exact hdirectory

/-! ## Trees -/

/-- Whatever there is stands in a directory. -/
def Tree (d : Disk) : Prop := ∀ p s, (d.node? (p ++ [s])).isSome → d.isDirectoryAt p

variable {s : List Char} {n : Node} {t : Target}

theorem isDirectoryAt_of_node?_empty {workingDirectory : Place}
    (h : ((empty workingDirectory).node? place).isSome) :
    (empty workingDirectory).isDirectoryAt place := by
  rw [isDirectoryAt_iff]
  unfold node? at h ⊢
  split
  next => rfl
  next hroot =>
    rw [if_neg hroot] at h
    obtain ⟨n, hn⟩ := Option.isSome_iff_exists.mp h
    obtain ⟨i, -, hi⟩ := List.mem_map.mp (Entries.mem_of_find? hn)
    rw [hn, ← (Prod.mk.inj hi).2]

theorem node?_empty_isSome_iff {workingDirectory : Place} :
    ((empty workingDirectory).node? place).isSome ↔ place <+: workingDirectory := by
  unfold node?
  split
  next hroot => simp [hroot]
  next hroot =>
    rw [Entries.isSome_find?_iff]
    simp only [empty, Entries.keys, List.map_map, List.mem_map, List.mem_range, Function.comp_def]
    constructor
    · rintro ⟨i, -, rfl⟩
      exact List.take_prefix _ _
    · intro hfront
      have hlength := List.length_pos_iff.mpr hroot
      refine ⟨place.length - 1, ?_, ?_⟩
      · have hle := hfront.length_le
        omega
      · rw [Nat.sub_add_cancel hlength]
        exact (List.prefix_iff_eq_take.mp hfront).symm

/-- Every disk starts as a tree. -/
theorem tree_empty (workingDirectory : Place) : (empty workingDirectory).Tree := fun p s hnode =>
  isDirectoryAt_of_node?_empty <| node?_empty_isSome_iff.mpr <|
    (List.prefix_append p [s]).trans (node?_empty_isSome_iff.mp hnode)

theorem Tree.isDirectoryAt_dropLast (h : d.Tree) (hq : d.isDirectoryAt q) :
    d.isDirectoryAt q.dropLast := by
  obtain rfl | ⟨p, s, rfl⟩ := q.eq_nil_or_concat
  · exact hq
  · rw [List.concat_eq_append, List.dropLast_concat]
    rw [List.concat_eq_append, isDirectoryAt_iff] at hq
    exact h p s (hq ▸ rfl)

/-- A tree stays one when something is put in a directory and does not take the place of another
directory. -/
theorem Tree.put (h : d.Tree) (hp : d.isDirectoryAt place)
    (hn : d.isDirectoryAt (place ++ [s]) → n = .directory) : (d.put (place ++ [s]) n).Tree := by
  intro p' s' hnode
  have hparent : d.isDirectoryAt p' := by
    rw [node?_put (by simp)] at hnode
    split at hnode
    next hsame => exact (List.append_inj' hsame rfl).1 ▸ hp
    next => exact h p' s' hnode
  rw [isDirectoryAt_iff, node?_put (by simp)]
  split
  next hsame => rw [hn (hsame ▸ hparent)]
  next => exact isDirectoryAt_iff.mp hparent

theorem isDirectoryAt_target (h : d.target path = .ok t) : d.isDirectoryAt t.directory := by
  obtain ⟨⟨⟩, -, h⟩ := except_bind_eq_ok h
  obtain ⟨place, -, h⟩ := except_bind_eq_ok h
  split at h
  next => cases h
  next hd =>
    cases h
    simpa using hd

theorem Tree.createDirectory (h : d.Tree) (hd : d.createDirectory path = .ok d') : d'.Tree := by
  obtain ⟨t, ht, hd⟩ := except_bind_eq_ok hd
  split at hd
  next => cases hd
  next s _ =>
    split at hd
    next => cases hd
    next =>
      split at hd
      next => cases hd
      next =>
        cases hd
        exact h.put (isDirectoryAt_target ht) fun _ => rfl

theorem Tree.ensureDirectory (h : d.Tree) (path : Path) : (d.ensureDirectory path).2.Tree := by
  unfold Disk.ensureDirectory
  split
  next d' hd => exact h.createDirectory hd
  next => split <;> exact h

theorem Tree.createAll (h : d.Tree) (fuel : Nat) (path : Path) :
    (createAll fuel d path).2.Tree := by
  induction fuel generalizing d path with
  | zero => exact h.ensureDirectory path
  | succ fuel ih =>
    unfold Disk.createAll
    split
    next => exact h
    next =>
      split
      next parent _ _ =>
        have hparent := ih h parent
        generalize Disk.createAll fuel d parent = made at hparent
        obtain ⟨failure?, d₁⟩ := made
        cases failure? with
        | none => exact Tree.ensureDirectory hparent path
        | some e => exact hparent
      next => exact h.ensureDirectory path

theorem Tree.write (h : d.Tree) (hd : d.write path content = .ok d') : d'.Tree := by
  obtain ⟨t, s, ht, -, -, -, hfree, rfl⟩ := write_eq_ok_iff.mp hd
  refine h.put (isDirectoryAt_target ht) fun hdirectory => ?_
  rw [hdirectory] at hfree
  cases hfree

/-! ## What goes wrong -/

/-- The last step to a file goes by its name, from the directory that it is in. -/
theorem walk_singleton_of_file (h : d.Tree) (hd : d.isDirectoryAt place)
    (hwalk : d.walk place [s] = .ok q) (hq : d.isDirectoryAt q = false) :
    Path.idle s = false ∧ s ≠ ['.', '.'] ∧ ¬255 < Utf8.size (String.ofList s) ∧
      q = place ++ [s] := by
  have hdirectory : ∀ {p}, d.isDirectoryAt p → p ≠ q := by
    rintro p hp rfl
    rw [hp] at hq
    cases hq
  unfold walk at hwalk
  rw [if_neg (by simp [hd])] at hwalk
  split at hwalk
  next =>
    cases hwalk
    exact absurd rfl (hdirectory hd)
  next hidle =>
    split at hwalk
    next =>
      cases hwalk
      exact absurd rfl (hdirectory (h.isDirectoryAt_dropLast hd))
    next hup =>
      split at hwalk
      next => cases hwalk
      next hlong =>
        split at hwalk
        next => cases hwalk
        next =>
          cases hwalk
          exact ⟨by simpa using hidle, hup, hlong, rfl⟩

theorem target_of_walk {texts : List (List Char)} (hcheck : check path = .ok ())
    (htexts : (d.start path).2 = texts ++ [s]) (hwalk : d.walk (d.start path).1 texts = .ok place)
    (hd : d.isDirectoryAt place) (hidle : Path.idle s = false) (hup : s ≠ ['.', '.']) :
    d.target path = .ok { directory := place, name? := some s, slashed := false } := by
  have hname : s ≠ [] ∧ s ≠ ['.'] := by simpa [Path.idle] using hidle
  unfold target
  rw [hcheck]
  generalize d.start path = way at htexts hwalk ⊢
  obtain ⟨start, found⟩ := way
  obtain rfl : found = texts ++ [s] := htexts
  dsimp only at hwalk
  simp [hname, hwalk, hd, hup, bind, Except.bind]

/-- Where a path leads to a file, another one can be written. -/
theorem write_of_fileAt? (h : d.Tree) (hlocate : d.locate path = .ok q) (hq : (d.fileAt? q).isSome)
    (other : Content) : ∃ d', d.write path other = .ok d' := by
  obtain ⟨hcheck, hwalk⟩ := locate_eq_ok_iff.mp hlocate
  have hfile : d.isDirectoryAt q = false := by
    unfold fileAt? at hq
    unfold isDirectoryAt
    split at hq
    next hnode => simp [hnode]
    next => cases hq
  obtain ⟨texts, s, htexts⟩ := (List.eq_nil_or_concat _).resolve_left (start_ne_nil d path)
  rw [List.concat_eq_append] at htexts
  rw [htexts] at hwalk
  obtain ⟨place, hplace, hd, hlast⟩ := walk_of_walk_append (by simp) hwalk
  obtain ⟨hidle, hup, hlong, rfl⟩ := walk_singleton_of_file h hd hlast hfile
  have htarget := target_of_walk hcheck htexts hplace hd hidle hup
  exact ⟨_, write_eq_ok_iff.mpr ⟨_, s, htarget, rfl, rfl, hlong, hfile, rfl⟩⟩

/-- Where a path leads anywhere, it has a target. -/
theorem exists_target_of_locate (h : d.locate path = .ok q) : ∃ t, d.target path = .ok t := by
  obtain ⟨hcheck, hwalk⟩ := locate_eq_ok_iff.mp h
  have hne := start_ne_nil d path
  unfold target
  rw [hcheck]
  generalize d.start path = way at hwalk hne ⊢
  obtain ⟨start, texts⟩ := way
  obtain ⟨more, hmore, htexts⟩ :=
    Path.exists_append_of_begins (Path.dropEnd_begins (· = []) texts) hne
  dsimp only at hwalk htexts
  rw [htexts] at hwalk
  obtain ⟨place, hplace, hd, -⟩ := walk_of_walk_append hmore hwalk
  simp only [bind, Except.bind, hplace, hd]
  exact ⟨_, rfl⟩

/-- What is there already is not refused for want of a parent. -/
theorem createDirectory_ne_notFound (h : d.locate path = .ok q) :
    d.createDirectory path ≠ .error .notFound := by
  obtain ⟨t, ht⟩ := exists_target_of_locate h
  simp only [createDirectory, ht, bind, Except.bind]
  split
  next => simp
  next =>
    split
    next => simp
    next => split <;> simp

theorem exists_locate_of_isDirectory (h : d.isDirectory path) : ∃ q, d.locate path = .ok q := by
  unfold isDirectory at h
  split at h
  next q hq => exact ⟨q, hq⟩
  next => cases h

theorem ensureDirectory_eq_some {e : DiskError} (h : d.ensureDirectory path = (some e, d')) :
    d' = d ∧ d'.isDirectory path = false := by
  unfold ensureDirectory at h
  split at h
  next => cases h
  next =>
    split at h
    next => cases h
    next hd =>
      cases h
      exact ⟨rfl, by simpa using hd⟩

theorem createAll_empty {fuel : Nat} {e : DiskError} (hp : path.isEmpty)
    (h : createAll fuel d path = (some e, d')) : d' = d := by
  cases fuel with
  | zero => exact (ensureDirectory_eq_some h).1
  | succ fuel =>
    rw [createAll, if_pos hp] at h
    cases h

/-- A directory that could not be created with its parents is not there. -/
theorem isDirectory_of_createAll {fuel : Nat} {e : DiskError}
    (h : createAll fuel d path = (some e, d')) : d'.isDirectory path = false := by
  induction fuel generalizing d d' path with
  | zero => exact (ensureDirectory_eq_some h).2
  | succ fuel ih =>
    unfold createAll at h
    split at h
    next => cases h
    next =>
      split at h
      next parent hmissing hparent =>
        split at h
        next => exact (ensureDirectory_eq_some h).2
        next =>
          have hparentless := ih h
          by_contra hdirectory
          obtain ⟨q, hq⟩ := exists_locate_of_isDirectory (by simpa using hdirectory)
          by_cases hempty : parent.isEmpty
          · rw [createAll_empty hempty h] at hq
            exact createDirectory_ne_notFound hq hmissing
          · rw [isDirectory_of_parent? hq hparent (by simpa using hempty)] at hparentless
            cases hparentless
      next => exact (ensureDirectory_eq_some h).2

end Disk

namespace Store

open Disk

variable {s : Store} {d d' : Disk} {path : Path}

theorem tree_makeParent (h : d.Tree) (path : Path) : (makeParent path d).2.Tree := by
  unfold makeParent
  split
  next => exact h
  next parent _ => exact h.createAll _ parent

theorem tree_save (h : d.Tree) (s : Store) : (s.save d).2.Tree := by
  have hmade := tree_makeParent h s.path
  unfold save
  split
  next => exact h
  next =>
    generalize makeParent s.path d = made at hmade ⊢
    obtain ⟨failure?, d₁⟩ := made
    cases failure? with
    | some e => exact hmade
    | none =>
      dsimp only
      split
      next hwrite => exact Tree.write hmade hwrite
      next => exact hmade

/-- What is read at a path is a file there. -/
theorem exists_file_of_read {file : FileEntries} (h : FileEntries.read d path = .ok (some file)) :
    ∃ q, d.locate path = .ok q ∧ (d.fileAt? q).isSome := by
  unfold FileEntries.read at h
  split at h
  next => cases h
  next =>
    split at h
    next => cases h
    next text htext =>
      obtain ⟨content, hcontent, -⟩ := except_bind_eq_ok htext
      obtain ⟨q, hq, hnode⟩ := except_bind_eq_ok hcontent
      refine ⟨q, hq, ?_⟩
      unfold fileAt?
      split at hnode
      next content' heq => rw [heq]; rfl
      next => cases hnode
      next => cases hnode

/-- Where the directory of a path could not be created, the path leads nowhere. -/
theorem locate_of_makeParent {e : StoreError} (h : makeParent path d = (some e, d')) (q : Place) :
    d'.locate path ≠ .ok q := by
  unfold makeParent at h
  split at h
  next => cases h
  next parent hparent =>
    obtain ⟨hparent, hne⟩ := Option.filter_eq_some_iff.mp hparent
    cases hmade : d.createDirectories parent with
    | mk failure? d₁ =>
    rw [hmade] at h
    cases failure? with
    | none => cases h
    | some cause =>
      cases h
      intro hlocate
      have hdirectory := isDirectory_of_parent? hlocate hparent (by simpa using hne)
      rw [isDirectory_of_createAll hmade] at hdirectory
      cases hdirectory

/-- After a save that failed there is no file to be read. -/
theorem read_of_save_eq_error {e : StoreError} (h : d.Tree) (hsave : s.save d = (.error e, d'))
    (file : FileEntries) : FileEntries.read d' s.path ≠ .ok (some file) := by
  intro hread
  obtain ⟨q, hlocate, hfile⟩ := exists_file_of_read hread
  have htree := tree_makeParent h s.path
  unfold save at hsave
  split at hsave
  next => cases hsave
  next =>
    cases hmade : makeParent s.path d with
    | mk failure? d₁ =>
    rw [hmade] at hsave htree
    cases failure? with
    | some cause =>
      cases hsave
      exact locate_of_makeParent hmade q hlocate
    | none =>
      dsimp only at hsave
      split at hsave
      next => cases hsave
      next cause hwrite =>
        cases hsave
        obtain ⟨d₂, hd₂⟩ := write_of_fileAt? htree hlocate hfile (.text s.toJson.pretty)
        rw [hwrite] at hd₂
        cases hd₂

end Store

end CallSampler
