import CallSampler.Entries
import Mathlib.Data.List.Basic

/-!
# What assignments leave

A map that a list of assignments leaves has the keys in the order in which they are first assigned
(`keys_ofAssignments`), each with the value that it is assigned last (`find?_ofAssignments`), and
without the assignments to some keys it is without these keys (`ofAssignments_filter`). Where no key
is assigned twice, keeping the map ascending only changes the order (`perm_sorted`), and finds the
same (`find?_sorted`). Where keys are compared by a partial equivalence, they are kept
separate (`Separate.put`), and a key that is present keeps its place (`put_of_beq`).
-/

namespace CallSampler.Entries

variable {κ ν : Type}

theorem filterMap_eq_self_of_forall {α : Type} {f : α → Option α} {xs : List α}
    (h : ∀ x ∈ xs, f x = some x) : xs.filterMap f = xs := by
  induction xs with
  | nil => rfl
  | cons x rest ih =>
    obtain ⟨hx, hrest⟩ := List.forall_mem_cons.mp h
    rw [List.filterMap_cons_some hx, ih hrest]

/-- Items that are added one after the other unless they are there already. -/
theorem foldl_addNew {α : Type} [DecidableEq α] (names labels : List α) :
    labels.foldl (fun names l => if l ∈ names then names else names ++ [l]) names =
      names ++ (labels.filter (· ∉ names)).eraseDups := by
  induction labels generalizing names with
  | nil => simp
  | cons l rest ih =>
    rw [List.foldl_cons, ih]
    by_cases hl : l ∈ names
    · simp [hl]
    · have hfilter : rest.filter (· ∉ names ++ [l]) =
          (rest.filter (· ∉ names)).filter fun k => !k == l := by
        rw [List.filter_filter]
        apply List.filter_congr
        intro k _
        by_cases hk : k = l <;> by_cases hm : k ∈ names <;> simp [hk, hm]
      rw [if_neg hl, hfilter, List.filter_cons_of_pos (by simpa using hl), List.eraseDups_cons,
        List.append_assoc, List.singleton_append]

theorem nodup_of_nodup_keys {entries : List (κ × ν)} (h : (keys entries).Nodup) : entries.Nodup :=
  (List.pairwise_map.mp h).imp fun hne he => hne (congrArg Prod.fst he)

theorem keys_zip (ks : List κ) (values : List ν) :
    keys (ks.zip values) = ks.take values.length := by
  induction ks generalizing values with
  | nil => simp [keys]
  | cons k rest ih =>
    cases values with
    | nil => rfl
    | cons v values =>
      rw [List.zip_cons_cons, keys_cons, ih]
      rfl

/-- A lookup finds the value of an entry, whatever its test is. -/
theorem exists_mem_of_find? {same : κ → Bool} {value : ν} {entries : List (κ × ν)}
    (h : find? same entries = some value) : ∃ e ∈ entries, e.2 = value := by
  induction entries with
  | nil => cases h
  | cons e rest ih =>
    unfold find? at h
    split at h
    next => exact ⟨e, List.mem_cons_self, Option.some.inj h⟩
    next =>
      obtain ⟨e', he', hvalue⟩ := ih h
      exact ⟨e', List.mem_cons_of_mem _ he', hvalue⟩

section Lawful

variable [BEq κ] [LawfulBEq κ]

omit [LawfulBEq κ] in
theorem find?_append (key : κ) (es fs : List (κ × ν)) :
    find? (· == key) (es ++ fs) = (find? (· == key) es).or (find? (· == key) fs) := by
  induction es with
  | nil => rfl
  | cons e rest ih =>
    simp only [List.cons_append, find?, ih]
    split <;> rfl

theorem find?_eq_some_iff {entries : List (κ × ν)} (hn : (keys entries).Nodup) {key : κ}
    {value : ν} :
    find? (· == key) entries = some value ↔ (key, value) ∈ entries :=
  ⟨mem_of_find?, find?_of_mem hn⟩

theorem isSome_find?_iff {key : κ} {entries : List (κ × ν)} :
    (find? (· == key) entries).isSome ↔ key ∈ keys entries := by
  induction entries with
  | nil => simp [find?]
  | cons e rest ih =>
    by_cases he : e.1 = key
    · simp [find?, he]
    · simp [find?, he, ih, Ne.symm he]

/-- A lookup does not depend on the order where no key occurs twice. -/
theorem find?_of_perm {es fs : List (κ × ν)} (hp : es.Perm fs) (hn : (keys es).Nodup) (key : κ) :
    find? (· == key) es = find? (· == key) fs := by
  have hn' : (keys fs).Nodup := (hp.map Prod.fst).nodup_iff.mp hn
  apply Option.ext
  intro value
  rw [find?_eq_some_iff hn, find?_eq_some_iff hn', hp.mem_iff]

/-- Where no key occurs twice, the entries can be found again by their keys. -/
theorem filterMap_keys {entries : List (κ × ν)} (hn : (keys entries).Nodup) :
    ((keys entries).filterMap fun k => (find? (· == k) entries).map fun v => (k, v)) = entries := by
  have hfind : ∀ e ∈ entries, ((find? (· == e.1) entries).map fun v => (e.1, v)) = some e := by
    intro e he
    rw [find?_of_mem hn he]
    rfl
  rw [keys, List.filterMap_map]
  exact filterMap_eq_self_of_forall hfind

/-- Lists with the same keys, none of which occurs twice, are the same if they find the same. -/
theorem eq_of_find? {es fs : List (κ × ν)} (hn : (keys es).Nodup) (hkeys : keys es = keys fs)
    (h : ∀ k ∈ keys es, find? (· == k) es = find? (· == k) fs) : es = fs := by
  have hn' : (keys fs).Nodup := hkeys ▸ hn
  calc
    es = (keys es).filterMap fun k => (find? (· == k) es).map fun v => (k, v) :=
      (filterMap_keys hn).symm
    _ = (keys es).filterMap fun k => (find? (· == k) fs).map fun v => (k, v) :=
      List.filterMap_congr fun k hk => by rw [h k hk]
    _ = fs := by rw [hkeys, filterMap_keys hn']

/-- A lookup finds the first entry that has the key. -/
theorem find?_eq_some_iff_append {key : κ} {value : ν} {entries : List (κ × ν)} :
    find? (· == key) entries = some value ↔
      ∃ before after, entries = before ++ (key, value) :: after ∧ key ∉ keys before := by
  constructor
  · intro h
    induction entries with
    | nil => cases h
    | cons e rest ih =>
      by_cases he : e.1 = key
      · rw [find?, if_pos (beq_iff_eq.mpr he)] at h
        obtain ⟨rfl, rfl⟩ := And.intro he (Option.some.inj h)
        exact ⟨[], rest, rfl, List.not_mem_nil⟩
      · rw [find?, if_neg (by simpa using he)] at h
        obtain ⟨before, after, rfl, hbefore⟩ := ih h
        refine ⟨e :: before, after, rfl, ?_⟩
        rw [keys_cons, List.mem_cons, not_or]
        exact ⟨Ne.symm he, hbefore⟩
  · rintro ⟨before, after, rfl, hbefore⟩
    have hnone : find? (· == key) before = none := by
      rw [← Option.not_isSome_iff_eq_none, isSome_find?_iff]
      exact hbefore
    rw [find?_append, hnone, Option.none_or, find?, if_pos BEq.rfl]

/-- An entry is put in front of the filter, or it does not get past it. -/
theorem filter_put (p : κ → Bool) (key : κ) (value : ν) (entries : List (κ × ν)) :
    (put (· == ·) key value entries).filter (fun e => p e.1) =
      if p key then put (· == ·) key value (entries.filter fun e => p e.1)
      else entries.filter fun e => p e.1 := by
  induction entries with
  | nil => cases hp : p key <;> simp [put, hp]
  | cons e rest ih =>
    by_cases he : e.1 = key
    · cases hp : p key <;> simp [put, he, hp]
    · cases hp : p key <;> cases hpe : p e.1 <;> simp [put, he, hp, hpe, ih]

end Lawful

/-! ## Assignments to names -/

section Named

/-- Assigning to a name replaces its part of a sum. -/
theorem sum_set (f : ν → Nat) (name : String) (value : ν) (entries : List (String × ν)) :
    ((set name value entries).map fun e => f e.2).foldr (· + ·) 0 +
        ((get? name entries).map f).getD 0 =
      (entries.map fun e => f e.2).foldr (· + ·) 0 + f value := by
  unfold set get?
  induction entries with
  | nil => simp [put, find?]
  | cons e rest ih =>
    by_cases he : e.1 = name
    · simp only [put, find?, beq_iff_eq.mpr he, if_true, List.map_cons, List.foldr_cons,
        Option.map_some, Option.getD_some]
      omega
    · simp only [put, find?, beq_eq_false_iff_ne.mpr he, Bool.false_eq_true, if_false,
        List.map_cons, List.foldr_cons]
      omega

/-- A name that is erased is not found, and all else is found as before. -/
theorem get?_erase (name k : String) (entries : List (String × ν)) :
    get? k (erase name entries) = if name = k then none else get? k entries := by
  induction entries with
  | nil => simp [get?, erase, find?]
  | cons e rest ih =>
    unfold get? erase at ih ⊢
    by_cases he : e.1 = name
    · rw [List.filter_cons_of_neg (by simp [he]), ih]
      by_cases hk : name = k <;> simp [find?, he, hk]
    · rw [List.filter_cons_of_pos (by simp [he]), find?, find?, ih]
      by_cases hk : name = k
      · simp [← hk, he]
      · simp [hk]

variable (assignments : List (String × ν))

/-- The keys stand in the order in which they are first assigned. -/
theorem keys_ofAssignments : keys (ofAssignments assignments) = (keys assignments).eraseDups := by
  suffices h : ∀ acc : List (String × ν),
      keys (assignments.foldl (fun entries a => set a.1 a.2 entries) acc) =
        (keys assignments).foldl (fun names l => if l ∈ names then names else names ++ [l])
          (keys acc) by
    have hall : (keys assignments).filter (· ∉ keys ([] : List (String × ν))) =
        keys assignments := by simp
    rw [ofAssignments, h, foldl_addNew, hall]
    rfl
  induction assignments with
  | nil => exact fun acc => rfl
  | cons a rest ih =>
    intro acc
    have hany : (acc.any fun e => e.1 == a.1) = true ↔ a.1 ∈ keys acc := by
      simp [keys]
    rw [List.foldl_cons, ih, keys_cons, List.foldl_cons, set, keys_put]
    simp only [hany]

/-- A key has the value that it is assigned last. -/
theorem find?_ofAssignments (key : String) :
    find? (· == key) (ofAssignments assignments) = find? (· == key) assignments.reverse := by
  suffices h : ∀ acc : List (String × ν),
      find? (· == key) (assignments.foldl (fun entries a => set a.1 a.2 entries) acc) =
        (find? (· == key) assignments.reverse).or (find? (· == key) acc) by
    rw [ofAssignments, h]
    simp [find?]
  induction assignments with
  | nil => exact fun acc => rfl
  | cons a rest ih =>
    intro acc
    rw [List.foldl_cons, ih, set, find?_put, List.reverse_cons, find?_append, Option.or_assoc]
    congr 1
    by_cases ha : a.1 = key <;> simp [find?, ha]

/-- Without the assignments to some keys the map is without these keys. -/
theorem ofAssignments_filter (p : String → Bool) :
    ofAssignments (assignments.filter fun a => p a.1) =
      (ofAssignments assignments).filter fun e => p e.1 := by
  suffices h : ∀ acc : List (String × ν),
      (assignments.filter fun a => p a.1).foldl (fun entries a => set a.1 a.2 entries)
        (acc.filter fun e => p e.1) =
      (assignments.foldl (fun entries a => set a.1 a.2 entries) acc).filter fun e => p e.1 from
    h []
  induction assignments with
  | nil => exact fun acc => rfl
  | cons a rest ih =>
    intro acc
    have hput := filter_put p a.1 a.2 acc
    cases hp : p a.1 with
    | true =>
      rw [hp, if_pos rfl] at hput
      rw [List.filter_cons_of_pos (by simp [hp]), List.foldl_cons, List.foldl_cons, ← ih, set, set,
        hput]
    | false =>
      rw [hp, if_neg Bool.false_ne_true] at hput
      rw [List.filter_cons_of_neg (by simp [hp]), List.foldl_cons, ← ih, set, hput]

end Named

/-! ## Separate keys -/

/-- No two keys are the same. -/
def Separate (same : κ → κ → Bool) (entries : List (κ × ν)) : Prop :=
  (keys entries).Pairwise fun a b => same a b = false

section Separate

variable {same : κ → κ → Bool} {key : κ} {value : ν} {entries : List (κ × ν)}

/-- An absent key is appended behind whatever comes before it. -/
theorem put_append_of_forall {before : List (κ × ν)}
    (h : ∀ k ∈ keys before, same k key = false) (rest : List (κ × ν)) :
    put same key value (before ++ rest) = before ++ put same key value rest := by
  induction before with
  | nil => rfl
  | cons e before ih =>
    obtain ⟨he, hbefore⟩ := List.forall_mem_cons.mp h
    rw [List.cons_append, put, he, if_neg Bool.false_ne_true, ih hbefore]
    rfl

theorem put_of_forall (h : ∀ k ∈ keys entries, same k key = false) :
    put same key value entries = entries ++ [(key, value)] := by
  have happend : put same key value (entries ++ []) = entries ++ [(key, value)] :=
    put_append_of_forall h []
  rwa [List.append_nil] at happend

theorem Separate.put (h : Separate same entries) (key : κ) (value : ν) :
    Separate same (put same key value entries) := by
  unfold Separate
  rw [keys_put]
  split
  next => exact h
  next hany =>
    refine List.pairwise_append.mpr ⟨h, List.pairwise_singleton _ _, fun k hk k' hk' => ?_⟩
    obtain ⟨e, he, rfl⟩ := List.mem_map.mp hk
    rw [List.mem_singleton.mp hk']
    exact Bool.eq_false_iff.mpr fun hsame => hany (List.any_eq_true.mpr ⟨e, he, hsame⟩)

/-- A key that is present keeps its place and its spelling. -/
theorem put_of_beq [BEq κ] [PartialEquivBEq κ] {before after : List (κ × ν)} {e : κ × ν}
    (hseparate : Separate (· == ·) (before ++ e :: after)) (he : e.1 == key) (value : ν) :
    put (· == ·) key value (before ++ e :: after) = before ++ (e.1, value) :: after := by
  have hbefore : ∀ k ∈ keys before, (k == key) = false := by
    intro k hk
    rw [Separate, keys_append, List.pairwise_append] at hseparate
    rw [← BEq.congr_right he]
    exact hseparate.2.2 k hk e.1 List.mem_cons_self
  rw [put_append_of_forall hbefore, put, if_pos he]

end Separate

/-! ## Ascending maps -/

section Ascending

variable [LT κ] [LE κ] [Std.LawfulOrderLT κ]

/-- There is one ascending list of given entries. -/
theorem eq_of_perm_of_ascending {es fs : List (κ × ν)} (hp : es.Perm fs) (he : Ascending es)
    (hf : Ascending fs) : es = fs := by
  have he := List.pairwise_map.mp he
  have hf := List.pairwise_map.mp hf
  refine List.Perm.eq_of_pairwise ?_ he hf hp
  intro a b _ _ hab hba
  exact absurd hba (Std.not_gt_of_lt hab)

theorem nodup_keys_of_ascending {entries : List (κ × ν)} (h : Ascending entries) :
    (keys entries).Nodup :=
  h.imp Std.ne_of_lt

/-- Ascending maps that find the same are the same. -/
theorem ext_of_ascending [BEq κ] [LawfulBEq κ] {es fs : List (κ × ν)} (he : Ascending es)
    (hf : Ascending fs) (h : ∀ k, find? (· == k) es = find? (· == k) fs) : es = fs := by
  have hne := nodup_keys_of_ascending he
  have hnf := nodup_keys_of_ascending hf
  have hmem : ∀ e, e ∈ es ↔ e ∈ fs := by
    intro e
    rw [← find?_eq_some_iff hne, h, find?_eq_some_iff hnf]
  have hperm := (List.perm_ext_iff_of_nodup (nodup_of_nodup_keys hne)
    (nodup_of_nodup_keys hnf)).mpr hmem
  exact eq_of_perm_of_ascending hperm he hf

end Ascending

section Order

variable [DecidableEq κ] [LT κ] [DecidableLT κ]

theorem perm_putSorted {key : κ} {value : ν} {entries : List (κ × ν)} (h : key ∉ keys entries) :
    (putSorted key value entries).Perm ((key, value) :: entries) := by
  induction entries with
  | nil => exact .refl _
  | cons e rest ih =>
    rw [keys_cons, List.mem_cons, not_or] at h
    rw [putSorted, if_neg (Ne.symm h.1)]
    split
    next => exact .refl _
    next => exact ((ih h.2).cons e).trans (.swap _ _ _)

theorem perm_sorted {entries : List (κ × ν)} (h : (keys entries).Nodup) :
    (sorted entries).Perm entries := by
  suffices hs : ∀ acc : List (κ × ν), (keys (acc ++ entries)).Nodup →
      ∀ sofar : List (κ × ν), sofar.Perm acc →
      (entries.foldl (fun acc e => putSorted e.1 e.2 acc) sofar).Perm (acc ++ entries) from
    hs [] h [] (.refl _)
  clear h
  induction entries with
  | nil =>
    intro acc _ sofar hperm
    rwa [List.append_nil]
  | cons e rest ih =>
    intro acc hn sofar hperm
    have he : e.1 ∉ keys sofar := by
      intro hm
      rw [keys_append, List.nodup_append] at hn
      exact hn.2.2 e.1 ((hperm.map Prod.fst).mem_iff.mp hm) e.1 List.mem_cons_self rfl
    have hput : (putSorted e.1 e.2 sofar).Perm (acc ++ [e]) :=
      ((perm_putSorted he).trans (hperm.cons e)).trans (List.perm_append_singleton e acc).symm
    have hrest := ih (acc ++ [e]) (by simpa using hn) _ hput
    rwa [List.append_assoc] at hrest

theorem find?_sorted [BEq κ] [LawfulBEq κ] {entries : List (κ × ν)} (hn : (keys entries).Nodup)
    (key : κ) : find? (· == key) (sorted entries) = find? (· == key) entries :=
  (find?_of_perm (perm_sorted hn).symm hn key).symm

variable [LE κ] [Std.LawfulOrderLT κ] [Std.IsLinearOrder κ]

theorem eq_sorted_iff {es fs : List (κ × ν)} (he : Ascending es) (hn : (keys fs).Nodup) :
    es = sorted fs ↔ es.Perm fs := by
  constructor
  · rintro rfl
    exact perm_sorted hn
  · intro hp
    exact eq_of_perm_of_ascending (hp.trans (perm_sorted hn).symm) he (ascending_sorted fs)

/-- Putting into a map and into its ascending form come to the same. -/
theorem sorted_put [BEq κ] [LawfulBEq κ] {entries : List (κ × ν)} (hn : (keys entries).Nodup)
    (key : κ) (value : ν) :
    sorted (put (· == ·) key value entries) = putSorted key value (sorted entries) := by
  refine ext_of_ascending (ascending_sorted _) (ascending_sorted entries).putSorted fun k => ?_
  rw [find?_sorted (nodup_keys_put hn), find?_put, find?_putSorted, find?_sorted hn]

end Order

end CallSampler.Entries
