import CallSampler.Path
import Mathlib.Data.List.Basic

/-!
# Paths as they are resolved

Normalizing a path replays its components on a stack of names. What a path is joined of, its text
between slashes shows: the texts of two joined paths follow each other (`steps_append`), and those
of names that were put between slashes are the names again (`steps_ofNames`). So normalizing a path
is the same in one go and in two (`normalize_resolves`).
-/

namespace CallSampler.Path

/-! ## Texts between slashes -/

theorem split_cons_of_ne {c : Char} (hc : c ≠ '/') (cs : List Char) :
    ∃ s ss, split cs = s :: ss ∧ split (c :: cs) = (c :: s) :: ss := by
  have hne : split cs ≠ [] := by
    cases cs with
    | nil => simp [split]
    | cons d ds =>
      unfold split
      split
      next => simp
      next => split <;> simp
  obtain ⟨s, ss, hs⟩ := List.exists_cons_of_ne_nil hne
  exact ⟨s, ss, hs, by rw [split, if_neg hc, hs]⟩

/-- A slash ends the texts before it. -/
theorem split_append_slash (cs ds : List Char) :
    split (cs ++ '/' :: ds) = split cs ++ split ds := by
  induction cs with
  | nil => simp [split]
  | cons c cs ih =>
    by_cases hc : c = '/'
    · rw [List.cons_append, split, if_pos hc, ih, split, if_pos hc, List.cons_append]
    · obtain ⟨s, ss, hs, hcons⟩ := split_cons_of_ne hc cs
      rw [List.cons_append, split, if_neg hc, ih, hs, hcons]
      rfl

theorem slash_notMem_of_mem_split {cs s : List Char} (h : s ∈ split cs) : '/' ∉ s := by
  induction cs generalizing s with
  | nil =>
    rw [split, List.mem_singleton] at h
    simp [h]
  | cons c cs ih =>
    by_cases hc : c = '/'
    · rw [split, if_pos hc] at h
      rcases List.mem_cons.mp h with rfl | h
      · exact List.not_mem_nil
      · exact ih h
    · obtain ⟨t, ts, ht, hcons⟩ := split_cons_of_ne hc cs
      rw [ht] at ih
      rw [hcons] at h
      rcases List.mem_cons.mp h with rfl | h
      · rw [List.mem_cons, not_or]
        exact ⟨Ne.symm hc, ih List.mem_cons_self⟩
      · exact ih (List.mem_cons_of_mem _ h)

theorem split_of_slash_notMem {s : List Char} (h : '/' ∉ s) : split s = [s] := by
  induction s with
  | nil => rfl
  | cons c cs ih =>
    rw [List.mem_cons, not_or] at h
    rw [split, if_neg (Ne.symm h.1), ih h.2]

/-- Texts without slashes are found again between those that they are joined by. -/
theorem split_join {texts : List (List Char)} (hne : texts ≠ []) (h : ∀ s ∈ texts, '/' ∉ s) :
    split (join texts) = texts := by
  induction texts with
  | nil => exact absurd rfl hne
  | cons s rest ih =>
    obtain ⟨hs, hrest⟩ := List.forall_mem_cons.mp h
    cases rest with
    | nil => exact split_of_slash_notMem hs
    | cons t rest =>
      rw [join, split_append_slash, split_of_slash_notMem hs, ih (List.cons_ne_nil t rest) hrest]
      rfl

/-! ## Names -/

/-- A name of a place, rather than nothing or dots that stand for other places. -/
structure Proper (s : List Char) : Prop where
  ne_nil : s ≠ []
  ne_dot : s ≠ ['.']
  ne_dots : s ≠ ['.', '.']
  slash_notMem : '/' ∉ s

theorem Proper.component?_eq {s : List Char} (h : Proper s) : component? s = some (.name s) := by
  simp [component?, idle, h.ne_nil, h.ne_dot, h.ne_dots]

theorem proper_of_component? {s t : List Char} (hs : '/' ∉ s) (h : component? s = some (.name t)) :
    Proper t := by
  unfold component? at h
  split at h
  next => cases h
  next hidle =>
    split at h
    next => cases h
    next hup =>
      cases h
      simp only [idle, Bool.or_eq_true, decide_eq_true_eq, not_or] at hidle
      exact ⟨hidle.1, hidle.2, hup, hs⟩

/-! ## The components behind the start -/

/-- What a path does on the way from where it starts. -/
def steps (path : Path) : List Component := (split path.text.toList).filterMap component?

/-- The stack of names that the components of a path leave of another. -/
def replay (stack : List (List Char)) (path : Path) : List (List Char) :=
  path.components.foldl Component.apply stack

variable {cwd p q : Path} {stack : List (List Char)}

/-- A path that starts at the root forgets the stack, and any other goes on from it. -/
theorem replay_eq (stack : List (List Char)) (p : Path) :
    replay stack p = p.steps.foldl Component.apply (if p.isAbsolute then [] else stack) := by
  unfold replay components parts steps isAbsolute
  split
  next rest hroot =>
    rw [hroot, split, if_pos rfl]
    rfl
  next cs hslash =>
    rw [if_neg Bool.false_ne_true]
    split
    next rest hsplit =>
      rw [hsplit]
      rfl
    next => rfl

theorem isAbsolute_iff : p.isAbsolute ↔ ∃ cs, p.text.toList = '/' :: cs := by
  unfold isAbsolute
  split
  next rest hroot => simp [hroot]
  next hslash =>
    simp only [Bool.false_eq_true, false_iff, not_exists]
    exact hslash

/-! ## Joined paths -/

theorem append_of_isAbsolute (hq : q.isAbsolute) : p.append q = q := by
  rw [append, if_pos hq]

theorem isAbsolute_append (hq : q.isAbsolute = false) :
    (p.append q).isAbsolute = p.isAbsolute := by
  rw [append, if_neg (by simp [hq])]
  split
  next hlast =>
    have hp : p.text.toList = [] := List.getLast?_eq_none_iff.mp hlast
    rw [hq, isAbsolute, hp]
  all_goals
    next hlast =>
      obtain ⟨cs, hcs⟩ := List.getLast?_eq_some_iff.mp hlast
      rw [Bool.eq_iff_iff, isAbsolute_iff, isAbsolute_iff]
      cases cs <;> simp [String.toList_append, hcs]

theorem steps_append (hq : q.isAbsolute = false) : (p.append q).steps = p.steps ++ q.steps := by
  have hslash : ∀ cs : List Char,
      (split (cs ++ '/' :: q.text.toList)).filterMap component? =
        (split cs).filterMap component? ++ q.steps := by
    intro cs
    rw [split_append_slash, List.filterMap_append]
    rfl
  rw [append, if_neg (by simp [hq])]
  split
  next hlast =>
    have hp : p.text.toList = [] := List.getLast?_eq_none_iff.mp hlast
    have hnothing : p.steps = [] := by
      rw [steps, hp]
      rfl
    rw [hnothing, List.nil_append]
  next hlast =>
    obtain ⟨cs, hcs⟩ := List.getLast?_eq_some_iff.mp hlast
    have hp : p.steps = (split cs).filterMap component? := by
      rw [steps, hcs, split_append_slash, List.filterMap_append]
      exact List.append_nil _
    rw [hp, ← hslash cs, steps, String.toList_append, hcs, List.append_assoc]
    rfl
  next =>
    have htext : (p.text ++ "/" ++ q.text).toList = p.text.toList ++ '/' :: q.text.toList := by
      simp [String.toList_append]
    rw [steps, htext, hslash]
    rfl

/-- A relative path goes on from where the path before it leads. -/
theorem replay_append (hq : q.isAbsolute = false) (stack : List (List Char)) :
    replay stack (p.append q) = replay (replay stack p) q := by
  rw [replay_eq, replay_eq (replay stack p), isAbsolute_append hq, steps_append hq,
    List.foldl_append, hq, ← replay_eq]
  rfl

/-! ## Paths of names -/

variable {names : List (List Char)}

theorem isAbsolute_ofNames (names : List (List Char)) : (ofNames names).isAbsolute := by
  rw [isAbsolute_iff, ofNames, String.toList_ofList]
  exact ⟨join names, rfl⟩

theorem steps_ofNames (h : ∀ s ∈ names, Proper s) : (ofNames names).steps = names.map .name := by
  have htexts : (ofNames names).steps = (split (join names)).filterMap component? := by
    rw [steps, ofNames, String.toList_ofList, split, if_pos rfl]
    rfl
  rw [htexts]
  by_cases hne : names = []
  · rw [hne]
    rfl
  · rw [split_join hne fun s hs => (h s hs).slash_notMem]
    clear htexts hne
    induction names with
    | nil => rfl
    | cons s rest ih =>
      obtain ⟨hs, hrest⟩ := List.forall_mem_cons.mp h
      rw [List.filterMap_cons_some hs.component?_eq, ih hrest, List.map_cons]

theorem components_ofNames (h : ∀ s ∈ names, Proper s) :
    (ofNames names).components = .root :: names.map .name := by
  have hparts : (ofNames names).parts = (some .root, split (join names)) := by
    rw [parts, ofNames, String.toList_ofList]
    rfl
  have hsteps := steps_ofNames h
  rw [steps, ofNames, String.toList_ofList, split, if_pos rfl] at hsteps
  rw [components, hparts, ← hsteps]
  rfl

theorem foldl_apply_name (names stack : List (List Char)) :
    (names.map Component.name).foldl Component.apply stack = names.reverse ++ stack := by
  induction names generalizing stack with
  | nil => rfl
  | cons s rest ih =>
    rw [List.map_cons, List.foldl_cons, ih, List.reverse_cons, List.append_assoc]
    rfl

/-- A path of names leads where they say, wherever it is read from. -/
theorem replay_ofNames (h : ∀ s ∈ names, Proper s) (stack : List (List Char)) :
    replay stack (ofNames names) = names.reverse := by
  rw [replay_eq, if_pos (isAbsolute_ofNames names), steps_ofNames h, foldl_apply_name,
    List.append_nil]

theorem names_ofNames (h : ∀ s ∈ names, Proper s) : (ofNames names).names = names := by
  have hreplay := replay_ofNames h []
  rw [replay] at hreplay
  rw [Path.names, hreplay, List.reverse_reverse]

/-- Components leave nothing but names on a stack of names. -/
theorem proper_replay (hstack : ∀ s ∈ stack, Proper s) (p : Path) :
    ∀ s ∈ replay stack p, Proper s := by
  have hsteps : ∀ c ∈ p.steps, ∀ s, c = .name s → Proper s := by
    rintro c hc s rfl
    obtain ⟨t, ht, hname⟩ := List.mem_filterMap.mp hc
    exact proper_of_component? (slash_notMem_of_mem_split ht) hname
  have hbase : ∀ s ∈ (if p.isAbsolute then [] else stack), Proper s := by
    split
    next => exact fun s hs => nomatch hs
    next => exact hstack
  rw [replay_eq]
  generalize (if p.isAbsolute then [] else stack) = base at hbase ⊢
  generalize p.steps = steps at hsteps ⊢
  induction steps generalizing base with
  | nil => exact hbase
  | cons c rest ih =>
    obtain ⟨hc, hrest⟩ := List.forall_mem_cons.mp hsteps
    refine ih _ ?_ hrest
    cases c with
    | root => exact fun s hs => nomatch hs
    | here => exact hbase
    | up => exact fun s hs => hbase s (List.mem_of_mem_drop hs)
    | name t => exact List.forall_mem_cons.mpr ⟨hc t rfl, hbase⟩

theorem proper_names (p : Path) : ∀ s ∈ p.names, Proper s := fun s hs =>
  proper_replay (List.forall_mem_nil Proper) p s (List.mem_reverse.mp hs)

/-! ## Normalization -/

theorem names_reverse (p : Path) : p.names.reverse = replay [] p := List.reverse_reverse _

/-- Normalizing a path replays its components from the root or from the working directory. -/
theorem normalize_eq (cwd p : Path) :
    normalize cwd p =
      ofNames (replay (if p.isAbsolute then [] else cwd.names.reverse) p).reverse := by
  rw [normalize]
  by_cases hp : p.isAbsolute
  · rw [if_pos hp, if_pos hp]
    rfl
  · have hrelative : p.isAbsolute = false := by simpa using hp
    rw [if_neg hp, if_neg hp, names_reverse, ← replay_append hrelative]
    rfl

theorem proper_normalized (cwd p : Path) :
    ∀ s ∈ (replay (if p.isAbsolute then [] else cwd.names.reverse) p).reverse, Proper s := by
  intro s hs
  refine proper_replay ?_ p s (List.mem_reverse.mp hs)
  split
  next => exact fun _ h => nomatch h
  next => exact fun t ht => proper_names cwd t (List.mem_reverse.mp ht)

/-- The names of a normalized path are those that the stack holds. -/
theorem names_normalize (cwd p : Path) :
    (normalize cwd p).names =
      (replay (if p.isAbsolute then [] else cwd.names.reverse) p).reverse := by
  rw [normalize_eq, names_ofNames (proper_normalized cwd p)]

theorem normalize_of_isAbsolute (hp : p.isAbsolute) (cwd : Path) :
    normalize cwd p = ofNames p.names := by
  rw [normalize, if_pos hp]

/-- A path of names is normalized. -/
theorem normalize_ofNames (h : ∀ s ∈ names, Proper s) (cwd : Path) :
    normalize cwd (ofNames names) = ofNames names := by
  rw [normalize_of_isAbsolute (isAbsolute_ofNames names), names_ofNames h]

theorem normalize_append (cwd p q : Path) :
    normalize cwd (p.append q) = normalize cwd ((normalize cwd p).append q) := by
  by_cases hq : q.isAbsolute
  · rw [append_of_isAbsolute hq, append_of_isAbsolute hq]
  · have hrelative : q.isAbsolute = false := by simpa using hq
    have hnormalized : (normalize cwd p).isAbsolute := by
      rw [normalize_eq]
      exact isAbsolute_ofNames _
    rw [normalize_eq cwd (p.append q), normalize_eq cwd ((normalize cwd p).append q),
      isAbsolute_append hrelative, isAbsolute_append hrelative, replay_append hrelative,
      replay_append hrelative, if_pos hnormalized, ← names_reverse (normalize cwd p),
      names_normalize, List.reverse_reverse]

/-- Normalizing resolves a path by its text alone. In an absolute working directory every path
becomes the root and behind it names, none of which is empty, a dot or a double dot; these are what
its components leave on a stack that starts out empty if the path is absolute, and with the names of
the normalized working directory if it is not, and from which a double dot takes one name, if there
is any. A normalized path stays as it is, and it does not matter whether a path is normalized before
another one is joined to it. -/
theorem normalize_resolves (hcwd : cwd.isAbsolute) (p : Path) :
    (normalize cwd p).isAbsolute ∧
    (∃ names : List (List Char), (∀ s ∈ names, Proper s) ∧ normalize cwd p = ofNames names ∧
      (normalize cwd p).components = .root :: names.map .name ∧
      names = (p.components.foldl Component.apply
        (if p.isAbsolute then [] else (normalize cwd cwd).names.reverse)).reverse) ∧
    normalize cwd (normalize cwd p) = normalize cwd p ∧
    ∀ q, normalize cwd (p.append q) = normalize cwd ((normalize cwd p).append q) := by
  have hproper := proper_normalized cwd p
  have hcwdNames : (normalize cwd cwd).names = cwd.names := by
    rw [normalize_of_isAbsolute hcwd, names_ofNames (proper_names cwd)]
  rw [hcwdNames]
  refine ⟨?_, ⟨_, hproper, normalize_eq cwd p, ?_, rfl⟩, ?_, normalize_append cwd p⟩
  · rw [normalize_eq]
    exact isAbsolute_ofNames _
  · rw [normalize_eq, components_ofNames hproper]
  · rw [normalize_eq cwd p, normalize_ofNames hproper]

/-- A path with slashes too many, dots, and more double dots than names. -/
theorem normalize_resolves_climbing :
    let cwd : Path := { text := "/home//u/." }
    let p : Path := { text := "./a//../../../../x/" }
    normalize cwd p = { text := "/x" } ∧ normalize cwd (normalize cwd p) = normalize cwd p ∧
      normalize cwd (p.append { text := "../y" }) =
        normalize cwd ((normalize cwd p).append { text := "../y" }) := by
  intro cwd p
  have hcwd : cwd.isAbsolute := by decide +kernel
  obtain ⟨-, -, hsame, hjoin⟩ := normalize_resolves hcwd p
  exact ⟨by decide +kernel, hsame, hjoin { text := "../y" }⟩

end CallSampler.Path
