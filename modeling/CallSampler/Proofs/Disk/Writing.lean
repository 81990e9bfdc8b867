import CallSampler.Disk

/-!
# Reading what was written

A file that was written is there and holds what was written (`read_write`). Writing goes by the
directory that the last name of the path stands in, reading by the whole path; the two meet because
a write changes no directory, so the way to the directory is the same before and after. Whether a
write succeeds depends on the disk and the path, and not on the content.
-/

namespace CallSampler.Disk

variable {d d' : Disk} {path : Path} {place p q : Place} {texts : List (List Char)}
  {content : Content}

theorem except_bind_eq_ok {ε α β : Type} {x : Except ε α} {f : α → Except ε β} {b : β}
    (h : (x >>= f) = .ok b) : ∃ a, x = .ok a ∧ f a = .ok b := by
  cases x with
  | error e => cases h
  | ok a => exact ⟨a, rfl, h⟩

/-! ## Places -/

theorem node?_put {n : Node} (hp : p ≠ []) :
    (d.put p n).node? q = if p = q then some n else d.node? q := by
  unfold node? put
  by_cases hq : q = []
  · rw [if_pos hq, if_pos hq, if_neg (hq ▸ hp)]
  · rw [if_neg hq, if_neg hq, Entries.find?_put]
    simp only [beq_iff_eq]

theorem isDirectoryAt_iff : d.isDirectoryAt q ↔ d.node? q = some .directory := by
  rw [isDirectoryAt, beq_iff_eq]

/-- Where no directory was, putting a file removes none. -/
theorem isDirectoryAt_put (content : Content) (hp : d.isDirectoryAt p = false)
    (h : d.isDirectoryAt q) :
    (d.put p (.file content)).isDirectoryAt q := by
  have hne : p ≠ q := by
    rintro rfl
    rw [h] at hp
    cases hp
  have hroot : p ≠ [] := by
    rintro rfl
    cases hp
  rw [isDirectoryAt_iff] at h ⊢
  rw [node?_put hroot, if_neg hne, h]

/-! ## The way to a directory -/

theorem walk_append (more : List (List Char)) :
    d.walk place (texts ++ more) = d.walk place texts >>= fun q => d.walk q more := by
  induction texts generalizing place with
  | nil => rfl
  | cons s rest ih =>
    simp only [List.cons_append, walk]
    repeat' split
    · rfl
    · exact ih
    · exact ih
    · rfl
    · rfl
    · exact ih

/-- A walk that ends in a directory starts in one. -/
theorem isDirectoryAt_of_walk (h : d.walk place texts = .ok q) (hq : d.isDirectoryAt q) :
    d.isDirectoryAt place := by
  cases texts with
  | nil =>
    cases h
    exact hq
  | cons s rest =>
    unfold walk at h
    split at h
    next => cases h
    next hd => simpa using hd

/-- The way to a directory leads over directories, and so stays as it is when a file is put where
none of them is. -/
theorem walk_put (hp : d.isDirectoryAt p = false) (h : d.walk place texts = .ok q)
    (hq : d.isDirectoryAt q) : (d.put p (.file content)).walk place texts = .ok q := by
  induction texts generalizing place with
  | nil => exact h
  | cons s rest ih =>
    have hplace := isDirectoryAt_put content hp (isDirectoryAt_of_walk h hq)
    unfold walk at h ⊢
    split at h
    next => cases h
    next =>
      rw [if_neg (by simp [hplace])]
      split at h
      next hidle => rw [if_pos hidle, ih h]
      next hidle =>
        rw [if_neg hidle]
        split at h
        next hup => rw [if_pos hup, ih h]
        next hup =>
          rw [if_neg hup]
          split at h
          next => cases h
          next hlong =>
            rw [if_neg hlong]
            split at h
            next => cases h
            next =>
              have hnext := isDirectoryAt_put content hp (isDirectoryAt_of_walk h hq)
              rw [isDirectoryAt_iff.mp hnext]
              exact ih h

/-! ## Writing -/

/-- Where the texts between slashes lose none at the end, the last of them is not empty. -/
theorem dropTrailing_eq_self
    (h : (texts.reverse.dropWhile (· = [])).length = texts.length) :
    (texts.reverse.dropWhile (· = [])).reverse = texts ∧ texts.getLast? ≠ some [] := by
  have hsame : texts.reverse.dropWhile (· = []) = texts.reverse :=
    (List.dropWhile_suffix _).eq_of_length (by rw [h, List.length_reverse])
  refine ⟨by rw [hsame, List.reverse_reverse], fun hlast => ?_⟩
  rw [List.getLast?_eq_head?_reverse] at hlast
  cases hr : texts.reverse with
  | nil => simp [hr] at hlast
  | cons c cs =>
    rw [hr] at hlast hsame
    obtain rfl : c = [] := by simpa using hlast
    have hle : (cs.dropWhile (· = [])).length ≤ cs.length := (List.dropWhile_suffix _).length_le
    have hlen := congrArg List.length hsame
    simp only [List.dropWhile_cons_of_pos, decide_true, List.length_cons] at hlen
    omega

/-- The last name of a path that no slash follows, and the way to the directory it stands in. -/
theorem texts_of_target {t : Target} {s : List Char} (h : d.target path = .ok t)
    (hs : t.name? = some s) (hl : t.slashed = false) :
    check path = .ok () ∧ d.isDirectoryAt t.directory ∧ Path.idle s = false ∧ s ≠ ['.', '.'] ∧
      ∃ texts, (d.start path).2 = texts ++ [s] ∧
        d.walk (d.start path).1 texts = .ok t.directory := by
  unfold target at h
  obtain ⟨⟨⟩, hcheck, h⟩ := except_bind_eq_ok h
  generalize d.start path = way at h ⊢
  obtain ⟨start, texts⟩ := way
  obtain ⟨directory, hwalk, h⟩ := except_bind_eq_ok h
  split at h
  next => cases h
  next hdir =>
    cases h
    simp only [ne_eq, decide_eq_false_iff_not, Decidable.not_not, List.length_reverse] at hl
    obtain ⟨hsame, hnil⟩ := dropTrailing_eq_self hl
    simp only [hsame] at hs hwalk
    obtain ⟨hlast, hname⟩ := Option.filter_eq_some_iff.mp hs
    simp only [decide_eq_true_eq] at hname
    have hne : s ≠ [] := fun he => hnil (he ▸ hlast)
    obtain ⟨ys, rfl⟩ := List.getLast?_eq_some_iff.mp hlast
    rw [List.dropLast_concat] at hwalk
    exact ⟨hcheck, by simpa using hdir, by simp [Path.idle, hne, hname.1], hname.2, ys, rfl, hwalk⟩

/-- What a write needs, none of which is about the content. -/
theorem write_eq_ok_iff : d.write path content = .ok d' ↔ ∃ t s, d.target path = .ok t ∧
    t.name? = some s ∧ t.slashed = false ∧ ¬255 < Utf8.size (String.ofList s) ∧
    d.isDirectoryAt (t.directory ++ [s]) = false ∧
    d' = d.put (t.directory ++ [s]) (.file content) := by
  constructor
  · intro h
    obtain ⟨t, ht, h⟩ := except_bind_eq_ok h
    split at h
    next => cases h
    next s hs =>
      split at h
      next => cases h
      next hslashed =>
        split at h
        next => cases h
        next hlong =>
          split at h
          next => cases h
          next hdir =>
            cases h
            exact ⟨t, s, ht, hs, by simpa using hslashed, hlong, by simpa using hdir, rfl⟩
  · rintro ⟨t, s, ht, hs, hslashed, hlong, hdir, rfl⟩
    simp [write, ht, hs, hslashed, hlong, hdir, bind, Except.bind]

/-- Where one content can be written, so can any. -/
theorem write_of_write (h : d.write path content = .ok d') (other : Content) :
    ∃ d'', d.write path other = .ok d'' := by
  obtain ⟨t, s, ht, hs, hslashed, hlong, hdir, -⟩ := write_eq_ok_iff.mp h
  exact ⟨_, write_eq_ok_iff.mpr ⟨t, s, ht, hs, hslashed, hlong, hdir, rfl⟩⟩

/-- A write puts a file at the place that the path leads to from then on. -/
theorem locate_write (h : d.write path content = .ok d') :
    ∃ place, d'.locate path = .ok place ∧ place ≠ [] ∧ d' = d.put place (.file content) := by
  obtain ⟨t, s, ht, hs, hslashed, hlong, hdir, rfl⟩ := write_eq_ok_iff.mp h
  obtain ⟨hcheck, hdirectory, hidle, hup, texts, htexts, hwalk⟩ := texts_of_target ht hs hslashed
  have hnode : (d.put (t.directory ++ [s]) (.file content)).node? (t.directory ++ [s]) =
      some (.file content) := by
    rw [node?_put (by simp), if_pos rfl]
  have hstart : (d.put (t.directory ++ [s]) (.file content)).start path = d.start path := rfl
  refine ⟨t.directory ++ [s], ?_, by simp, rfl⟩
  have hlast : (d.put (t.directory ++ [s]) (.file content)).walk t.directory [s] =
      .ok (t.directory ++ [s]) := by
    simp [walk, isDirectoryAt_put content hdir hdirectory, hidle, hup, hlong, hnode]
  rw [locate, hcheck, hstart]
  show Disk.walk _ (d.start path).1 (d.start path).2 = _
  rw [htexts, walk_append, walk_put hdir hwalk hdirectory]
  exact hlast

/-- A file that was written holds what was written. -/
theorem read_write (h : d.write path content = .ok d') : d'.read path = .ok content := by
  obtain ⟨place, hplace, hne, rfl⟩ := locate_write h
  simp [read, hplace, node?_put hne, bind, Except.bind]

theorem pathExists_write (h : d.write path content = .ok d') : d'.pathExists path := by
  obtain ⟨place, hplace, -⟩ := locate_write h
  simp [pathExists, hplace, Except.toBool]

end CallSampler.Disk
