import CallSampler.Proofs.Path.Resolution

/-!
# The parent of a path

A path is its start and the texts between its slashes, and its parent is the same start with the
first of these texts, at least one of which is left over (`leads_of_parent?`). Only the root is the
parent of a path that has no more texts than itself.
-/

namespace CallSampler

namespace Path

variable {path p : Path}

/-! ## Texts between slashes -/

/-- The texts between slashes, without the one before the slash that an absolute path starts
with. -/
def texts (path : Path) : List (List Char) :=
  match path.text.toList with
  | '/' :: rest => split rest
  | cs => split cs

theorem split_ne_nil (cs : List Char) : split cs ≠ [] := by
  cases cs with
  | nil => simp [split]
  | cons c rest =>
    unfold split
    split
    next => simp
    next => split <;> simp

theorem texts_ne_nil (path : Path) : path.texts ≠ [] := by
  unfold texts
  split <;> exact split_ne_nil _

theorem join_split (cs : List Char) : join (split cs) = cs := by
  induction cs with
  | nil => rfl
  | cons c rest ih =>
    unfold split
    split
    next hslash =>
      cases hrest : split rest with
      | nil => exact absurd hrest (split_ne_nil rest)
      | cons s ss => rw [join, ← hrest, ih, hslash, List.nil_append]
    next =>
      split
      next hrest => exact absurd hrest (split_ne_nil rest)
      next s ss hrest =>
        rw [hrest] at ih
        rw [← ih]
        cases ss <;> rfl

theorem join_begins (texts more : List (List Char)) : join texts <+: join (texts ++ more) := by
  induction texts with
  | nil => exact List.nil_prefix
  | cons s rest ih =>
    cases rest with
    | nil =>
      cases more with
      | nil => exact List.prefix_rfl
      | cons t ts => exact List.prefix_append _ _
    | cons t ts => exact (List.prefix_append_right_inj _).mpr ((List.prefix_cons_inj _).mpr ih)

theorem dropEnd_begins (drops : List Char → Bool) (texts : List (List Char)) :
    (texts.reverse.dropWhile drops).reverse <+: texts := by
  rw [← List.reverse_suffix, List.reverse_reverse]
  exact List.dropWhile_suffix _

theorem exists_append_of_begins {init texts : List (List Char)} (h : init <+: texts)
    (hne : texts ≠ []) : ∃ more, more ≠ [] ∧ texts = init.dropLast ++ more := by
  obtain ⟨rest, rfl⟩ := h
  obtain rfl | ⟨front, last, rfl⟩ := init.eq_nil_or_concat
  · exact ⟨rest, hne, rfl⟩
  · exact ⟨last :: rest, by simp, by simp⟩

/-- The last text that counts is behind those that a parent has. -/
theorem exists_append_of_dropIdleEnd {texts : List (List Char)} (h : texts ≠ []) :
    ∃ more, more ≠ [] ∧ texts = dropIdleEnd (dropIdleEnd texts).dropLast ++ more := by
  obtain ⟨more, hmore, htexts⟩ := exists_append_of_begins (dropEnd_begins idle texts) h
  obtain ⟨inner, hinner⟩ := dropEnd_begins idle (dropIdleEnd texts).dropLast
  refine ⟨inner ++ more, by simp [hmore], ?_⟩
  rw [← List.append_assoc]
  exact htexts.trans (congrArg (· ++ more) hinner.symm)

/-- The parent of the texts between slashes, if some of them count, begins with the same start. -/
theorem parent?_eq_some (h : path.parent? = some p) (hp : p.isEmpty = false) :
    ∃ init more, more ≠ [] ∧ path.parts.2 = init ++ more ∧ p = ofParts path.parts.1 init := by
  unfold parent? at h
  split at h
  next start texts hparts =>
    rw [hparts]
    split at h
    next =>
      split at h
      next =>
        cases h
        cases hp
      next => cases h
    next t ts hdrop =>
      have hne : texts ≠ [] := by
        rintro rfl
        cases hdrop
      obtain ⟨more, hmore, htexts⟩ := exists_append_of_dropIdleEnd hne
      cases h
      exact ⟨_, more, hmore, htexts, rfl⟩

/-- A parent that is not the root has the first texts of the path. -/
structure Leads (p path : Path) (more : List (List Char)) : Prop where
  more_ne : more ≠ []
  isAbsolute : p.isAbsolute = path.isAbsolute
  texts : path.texts = p.texts ++ more
  text : p.text.toList <+: path.text.toList

theorem texts_of_isAbsolute {rest : List Char} (h : path.text.toList = '/' :: rest) :
    path.texts = split rest := by
  simp only [texts, h]

theorem texts_of_not_isAbsolute (h : path.isAbsolute = false) :
    path.texts = split path.text.toList := by
  unfold texts
  split
  next rest hroot =>
    rw [isAbsolute_iff.mpr ⟨rest, hroot⟩] at h
    cases h
  next => rfl

theorem isAbsolute_eq_false (h : ∀ rest, path.text.toList ≠ '/' :: rest) :
    path.isAbsolute = false := by
  rw [← Bool.not_eq_true, isAbsolute_iff]
  rintro ⟨rest, hrest⟩
  exact h rest hrest

/-- The start of a path and the texts behind it are its texts, of which a dot may be the start. -/
inductive Starts (path : Path) : Option Component × List (List Char) → Prop where
  | root (rest : List Char) (h : path.text.toList = '/' :: rest) :
    Starts path (some .root, split rest)
  | here (rest : List (List Char)) (h : path.isAbsolute = false)
    (hsplit : split path.text.toList = ['.'] :: rest) : Starts path (some .here, rest)
  | plain (h : path.isAbsolute = false) : Starts path (none, split path.text.toList)

theorem starts_parts (path : Path) : path.Starts path.parts := by
  unfold parts
  split
  next rest hroot => exact .root rest hroot
  next hroot =>
    have hrelative := isAbsolute_eq_false hroot
    split
    next rest hsplit => exact .here rest hrelative hsplit
    next => exact .plain hrelative

theorem isAbsolute_eq_false_of_begins (h : p.text.toList <+: path.text.toList)
    (hpath : path.isAbsolute = false) : p.isAbsolute = false := by
  rw [← Bool.not_eq_true, isAbsolute_iff] at hpath ⊢
  rintro ⟨cs, hcs⟩
  obtain ⟨rest, hrest⟩ := h
  exact hpath ⟨cs ++ rest, by rw [← hrest, hcs, List.cons_append]⟩

/-- Texts without a slash stay what they are when they are joined. -/
theorem split_join_of_append {cs : List Char} {init more : List (List Char)}
    (h : split cs = init ++ more) (hne : init ≠ []) : split (join init) = init :=
  split_join hne fun _ hs => slash_notMem_of_mem_split (h ▸ List.mem_append_left _ hs)

theorem toList_ofParts_root (texts : List (List Char)) :
    (ofParts (some .root) texts).text.toList = '/' :: join texts := String.toList_ofList

theorem toList_ofParts_none (texts : List (List Char)) :
    (ofParts none texts).text.toList = join texts := String.toList_ofList

theorem toList_ofParts_here (texts : List (List Char)) :
    (ofParts (some .here) texts).text.toList = join (['.'] :: texts) := by
  cases texts with
  | nil => rfl
  | cons t ts => exact String.toList_ofList

/-- A relative path leads on from the path of its first texts. -/
theorem leads_of_join {init more : List (List Char)} (hpath : path.isAbsolute = false)
    (hsplit : split path.text.toList = init ++ more) (hinit : init ≠ []) (hmore : more ≠ [])
    (hp : p.text.toList = join init) : p.Leads path more := by
  have hfront : p.text.toList <+: path.text.toList := by
    rw [hp, ← join_split path.text.toList, hsplit]
    exact join_begins init more
  have hrelative := isAbsolute_eq_false_of_begins hfront hpath
  refine ⟨hmore, hrelative.trans hpath.symm, ?_, hfront⟩
  rw [texts_of_not_isAbsolute hpath, texts_of_not_isAbsolute hrelative, hp,
    split_join_of_append hsplit hinit, hsplit]

theorem leads_of_parent? (h : path.parent? = some p) (hp : p.isEmpty = false) :
    p.text = "/" ∨ ∃ more, p.Leads path more := by
  obtain ⟨init, more, hmore, htexts, hinit⟩ := parent?_eq_some h hp
  have hstarts := path.starts_parts
  generalize path.parts = parts at hstarts htexts hinit
  cases hstarts with
  | root rest hroot =>
    have htext : p.text.toList = '/' :: join init := hinit ▸ toList_ofParts_root init
    by_cases hnil : init = []
    · exact .inl (by rw [hinit, hnil]; rfl)
    · have hsplit : split rest = init ++ more := htexts
      refine .inr ⟨more, hmore, ?_, ?_, ?_⟩
      · rw [isAbsolute_iff.mpr ⟨rest, hroot⟩, isAbsolute_iff.mpr ⟨_, htext⟩]
      · rw [texts_of_isAbsolute hroot, texts_of_isAbsolute htext,
          split_join_of_append hsplit hnil, hsplit]
      · rw [hroot, htext, ← join_split rest, hsplit]
        exact (List.prefix_cons_inj _).mpr (join_begins init more)
  | here rest hrelative hsplit =>
    have hrest : rest = init ++ more := htexts
    refine .inr ⟨more, leads_of_join hrelative ?_ (List.cons_ne_nil ['.'] init) hmore ?_⟩
    · rw [hsplit, hrest, List.cons_append]
    · exact hinit ▸ toList_ofParts_here init
  | plain hrelative =>
    have htext : p.text.toList = join init := hinit ▸ toList_ofParts_none init
    refine .inr ⟨more, leads_of_join hrelative htexts ?_ hmore htext⟩
    rintro rfl
    rw [hinit] at hp
    cases hp

end Path

end CallSampler
