/-!
# Entry lists

An entry list is a map written down as the list of its entries. `put` overwrites the value of a
present key in place and appends an absent one, so the list stays in the order of first insertion
and keeps the first spelling of each key; `putSorted` keeps the list ascending instead. The key
test is a parameter, because one kind of key here (a runtime value) has an equality that is not
reflexive. Where it is symmetric and transitive, a lookup finds what the last `put` left.
-/

namespace CallSampler.Entries

variable {κ ν : Type}

/-- The value of the first entry whose key passes the test. -/
def find? (same : κ → Bool) : List (κ × ν) → Option ν
  | [] => none
  | (k, v) :: rest => if same k then some v else find? same rest

/-- Overwrite the value of the first entry whose key is the same, or append a new entry. -/
def put (same : κ → κ → Bool) (key : κ) (value : ν) : List (κ × ν) → List (κ × ν)
  | [] => [(key, value)]
  | (k, v) :: rest =>
    if same k key then (k, value) :: rest else (k, v) :: put same key value rest

/-- Like `put`, but an absent key goes in front of the first greater one. -/
def putSorted [DecidableEq κ] [LT κ] [DecidableLT κ] (key : κ) (value : ν) :
    List (κ × ν) → List (κ × ν)
  | [] => [(key, value)]
  | (k, v) :: rest =>
    if k = key then (k, value) :: rest
    else if key < k then (key, value) :: (k, v) :: rest
    else (k, v) :: putSorted key value rest

def keys (entries : List (κ × ν)) : List κ := entries.map Prod.fst

/-- The keys ascend, so none occurs twice. -/
def Ascending [LT κ] (entries : List (κ × ν)) : Prop := (keys entries).Pairwise (· < ·)

/-- Assignments applied in order to a map that stays ascending. For names this is the order of their
UTF-8 bytes, since they compare by code point. -/
def sorted [DecidableEq κ] [LT κ] [DecidableLT κ] (entries : List (κ × ν)) : List (κ × ν) :=
  entries.foldl (fun acc e => putSorted e.1 e.2 acc) []

section Named

def get? (name : String) (entries : List (String × ν)) : Option ν :=
  find? (· == name) entries

def has (name : String) (entries : List (String × ν)) : Bool :=
  (get? name entries).isSome

/-- Like `put`, for names, which are the same when they are equal. -/
def set (name : String) (value : ν) (entries : List (String × ν)) : List (String × ν) :=
  put (· == ·) name value entries

def erase (name : String) (entries : List (String × ν)) : List (String × ν) :=
  entries.filter fun entry => entry.1 != name

/-- The map that a list of assignments leaves, each applied in order. -/
def ofAssignments (assignments : List (String × ν)) : List (String × ν) :=
  assignments.foldl (fun entries a => set a.1 a.2 entries) []

end Named

/-! ## Keys -/

@[simp] theorem keys_nil : keys ([] : List (κ × ν)) = [] := rfl

@[simp] theorem keys_cons (e : κ × ν) (rest : List (κ × ν)) :
    keys (e :: rest) = e.1 :: keys rest := rfl

@[simp] theorem keys_append (es fs : List (κ × ν)) : keys (es ++ fs) = keys es ++ keys fs :=
  List.map_append

/-- Changing values alone keeps the keys. -/
@[simp] theorem keys_map_value {μ : Type} (f : κ × ν → μ) (entries : List (κ × ν)) :
    keys (entries.map fun e => (e.1, f e)) = keys entries := by
  simp [keys]

theorem mem_keys_of_mem {e : κ × ν} {entries : List (κ × ν)} (h : e ∈ entries) :
    e.1 ∈ keys entries :=
  List.mem_map_of_mem h

/-- Overwriting or appending never removes a key, and adds one only at the end. -/
theorem keys_put (same : κ → κ → Bool) (key : κ) (value : ν) (entries : List (κ × ν)) :
    keys (put same key value entries) =
      if entries.any (fun e => same e.1 key) then keys entries else keys entries ++ [key] := by
  induction entries with
  | nil => simp [put]
  | cons e rest ih =>
    by_cases h : same e.1 key
    · simp [put, h]
    · simp only [put, h, Bool.false_eq_true, if_false, keys_cons, ih, List.any_cons,
        Bool.false_or]
      split <;> simp

/-- An entry after a `put` has the value that was put, or was there before. -/
theorem mem_put {same : κ → κ → Bool} {key : κ} {value : ν} {entries : List (κ × ν)} {e : κ × ν}
    (h : e ∈ put same key value entries) : e.2 = value ∨ e ∈ entries := by
  induction entries with
  | nil =>
    rw [put, List.mem_singleton] at h
    exact Or.inl (h ▸ rfl)
  | cons f rest ih =>
    unfold put at h
    split at h
    next =>
      rcases List.mem_cons.mp h with rfl | h
      · exact Or.inl rfl
      · exact Or.inr (List.mem_cons_of_mem _ h)
    next =>
      rcases List.mem_cons.mp h with rfl | h
      · exact Or.inr List.mem_cons_self
      · exact (ih h).imp_right (List.mem_cons_of_mem _)

/-- Every value of a map made by assignments was assigned. -/
theorem mem_ofAssignments {assignments : List (String × ν)} {e : String × ν}
    (h : e ∈ ofAssignments assignments) : ∃ a ∈ assignments, a.2 = e.2 := by
  suffices hs : ∀ acc, e ∈ assignments.foldl (fun entries a => set a.1 a.2 entries) acc →
      (∃ a ∈ assignments, a.2 = e.2) ∨ e ∈ acc from
    (hs [] h).resolve_right (by simp)
  clear h
  induction assignments with
  | nil => exact fun acc h => Or.inr h
  | cons a rest ih =>
    intro acc h
    rcases ih _ h with ⟨b, hb, he⟩ | he
    · exact Or.inl ⟨b, List.mem_cons_of_mem _ hb, he⟩
    · rcases mem_put he with hv | he
      · exact Or.inl ⟨a, List.mem_cons_self, hv.symm⟩
      · exact Or.inr he

/-! ## Entries that are changed one by one -/

section Map

variable {κ' ν' : Type} {same : κ → Bool} {same' : κ' → Bool} {g : κ → κ'} {f : ν → ν'}
  {entries : List (κ × ν)}

theorem find?_map (h : ∀ e ∈ entries, same' (g e.1) = same e.1) :
    find? same' (entries.map fun e => (g e.1, f e.2)) = (find? same entries).map f := by
  induction entries with
  | nil => rfl
  | cons e rest ih =>
    obtain ⟨he, hrest⟩ := List.forall_mem_cons.mp h
    simp only [List.map_cons, find?, he, ih hrest]
    split <;> rfl

theorem put_map {same : κ → κ → Bool} {same' : κ' → κ' → Bool} {key : κ} (value : ν)
    (h : ∀ e ∈ entries, same' (g e.1) (g key) = same e.1 key) :
    put same' (g key) (f value) (entries.map fun e => (g e.1, f e.2)) =
      (put same key value entries).map fun e => (g e.1, f e.2) := by
  induction entries with
  | nil => rfl
  | cons e rest ih =>
    obtain ⟨he, hrest⟩ := List.forall_mem_cons.mp h
    simp only [List.map_cons, put, he, ih hrest]
    split <;> rfl

theorem set_map_value (f : ν → ν') (name : String) (value : ν) (entries : List (String × ν)) :
    set name (f value) (entries.map fun e => (e.1, f e.2)) =
      (set name value entries).map fun e => (e.1, f e.2) :=
  put_map (g := id) value fun _ _ => rfl

theorem erase_map_value (f : ν → ν') (name : String) (entries : List (String × ν)) :
    erase name (entries.map fun e => (e.1, f e.2)) =
      (erase name entries).map fun e => (e.1, f e.2) := by
  simp [erase, List.filter_map, Function.comp_def]

theorem ofAssignments_map_value (f : ν → ν') (assignments : List (String × ν)) :
    ofAssignments (assignments.map fun e => (e.1, f e.2)) =
      (ofAssignments assignments).map fun e => (e.1, f e.2) := by
  suffices h : ∀ acc : List (String × ν),
      (assignments.map fun e => (e.1, f e.2)).foldl (fun entries a => set a.1 a.2 entries)
        (acc.map fun e => (e.1, f e.2)) =
      (assignments.foldl (fun entries a => set a.1 a.2 entries) acc).map fun e => (e.1, f e.2) from
    h []
  induction assignments with
  | nil => exact fun acc => rfl
  | cons a rest ih =>
    intro acc
    rw [List.map_cons, List.foldl_cons, List.foldl_cons]
    dsimp only
    rw [set_map_value, ih]

end Map

/-! ## Keys that are compared by a partial equivalence -/

/-- A lookup finds what was put last under its key, and all else as before. -/
theorem find?_put [BEq κ] [PartialEquivBEq κ] (key k : κ) (value : ν) (entries : List (κ × ν)) :
    find? (· == k) (put (· == ·) key value entries) =
      if key == k then some value else find? (· == k) entries := by
  induction entries with
  | nil => rfl
  | cons e rest ih =>
    by_cases he : e.1 == key
    · rw [put, if_pos he, find?, find?, BEq.congr_left he]
      split <;> rfl
    · rw [put, if_neg he, find?, find?, ih]
      by_cases hk : key == k
      · have hne : ¬e.1 == k := by rwa [← BEq.congr_right hk]
        rw [if_neg hne, if_pos hk, if_pos hk]
      · rw [if_neg hk, if_neg hk]

/-! ## Keys that are compared by equality -/

section Lawful

variable [BEq κ] [LawfulBEq κ]

theorem mem_of_find? {key : κ} {value : ν} {entries : List (κ × ν)}
    (h : find? (· == key) entries = some value) : (key, value) ∈ entries := by
  induction entries with
  | nil => simp [find?] at h
  | cons e rest ih =>
    unfold find? at h
    split at h
    next hk =>
      rw [← eq_of_beq hk, ← Option.some.inj h]
      exact List.mem_cons_self
    next => exact List.mem_cons_of_mem _ (ih h)

/-- Where no key occurs twice, every entry is found under its key. -/
theorem find?_of_mem {key : κ} {value : ν} {entries : List (κ × ν)}
    (hn : (keys entries).Nodup) (h : (key, value) ∈ entries) :
    find? (· == key) entries = some value := by
  induction entries with
  | nil => simp at h
  | cons e rest ih =>
    rw [keys_cons, List.nodup_cons] at hn
    rcases List.mem_cons.mp h with rfl | h
    · simp [find?]
    · have hne : e.1 ≠ key := fun he => hn.1 (he ▸ mem_keys_of_mem h)
      simp [find?, hne, ih hn.2 h]

omit [LawfulBEq κ] in
theorem find?_map_value {μ : Type} (f : ν → μ) (key : κ) (entries : List (κ × ν)) :
    find? (· == key) (entries.map fun e => (e.1, f e.2)) =
      (find? (· == key) entries).map f := by
  induction entries with
  | nil => rfl
  | cons e rest ih =>
    simp only [List.map_cons, find?, ih]
    split <;> rfl

theorem nodup_keys_put {key : κ} {value : ν} {entries : List (κ × ν)}
    (h : (keys entries).Nodup) : (keys (put (· == ·) key value entries)).Nodup := by
  rw [keys_put]
  split
  next => exact h
  next ha =>
    have hm : key ∉ keys entries := by
      simpa [keys] using ha
    refine List.nodup_append.mpr ⟨h, by simp, fun a hk b hb => ?_⟩
    rw [List.mem_singleton.mp hb]
    exact fun he => hm (he ▸ hk)

/-- An absent key is appended. -/
theorem put_of_notMem {key : κ} {value : ν} {entries : List (κ × ν)} (h : key ∉ keys entries) :
    put (· == ·) key value entries = entries ++ [(key, value)] := by
  induction entries with
  | nil => rfl
  | cons e rest ih =>
    rw [keys_cons, List.mem_cons, not_or] at h
    simp [put, Ne.symm h.1, ih h.2]

end Lawful

/-- The keys of a map made by assignments are distinct. -/
theorem nodup_keys_ofAssignments (assignments : List (String × ν)) :
    (keys (ofAssignments assignments)).Nodup := by
  suffices h : ∀ acc : List (String × ν), (keys acc).Nodup →
      (keys (assignments.foldl (fun entries a => set a.1 a.2 entries) acc)).Nodup from
    h [] .nil
  induction assignments with
  | nil => exact fun acc h => h
  | cons a rest ih => exact fun acc h => ih _ (nodup_keys_put h)

/-- Assignments to distinct names make the list of themselves. -/
theorem ofAssignments_of_nodup {assignments : List (String × ν)}
    (h : (keys assignments).Nodup) : ofAssignments assignments = assignments := by
  suffices hs : ∀ acc : List (String × ν), (keys (acc ++ assignments)).Nodup →
      assignments.foldl (fun entries a => set a.1 a.2 entries) acc = acc ++ assignments from
    hs [] h
  clear h
  induction assignments with
  | nil => simp
  | cons a rest ih =>
    intro acc h
    have ha : a.1 ∉ keys acc := by
      rw [keys_append, List.nodup_append] at h
      exact fun hm => h.2.2 a.1 hm a.1 List.mem_cons_self rfl
    rw [List.foldl_cons, set, put_of_notMem ha, ih _ (by simpa using h)]
    simp

/-! ## Ascending keys -/

section Order

variable [DecidableEq κ] [LT κ] [DecidableLT κ]

theorem mem_keys_putSorted {key k : κ} {value : ν} {entries : List (κ × ν)} :
    k ∈ keys (putSorted key value entries) ↔ k = key ∨ k ∈ keys entries := by
  induction entries with
  | nil => simp [putSorted]
  | cons e rest ih =>
    unfold putSorted
    split
    next he => simp [he]
    next =>
      split
      next => simp
      next => simp [ih, or_left_comm]

theorem mem_putSorted {key : κ} {value : ν} {entries : List (κ × ν)} {e : κ × ν}
    (h : e ∈ putSorted key value entries) : e = (key, value) ∨ e ∈ entries := by
  induction entries with
  | nil => exact Or.inl (List.mem_singleton.mp h)
  | cons f rest ih =>
    unfold putSorted at h
    split at h
    next hf =>
      rcases List.mem_cons.mp h with rfl | h
      · exact Or.inl (by rw [hf])
      · exact Or.inr (List.mem_cons_of_mem _ h)
    next =>
      split at h
      next => exact List.mem_cons.mp h
      next =>
        rcases List.mem_cons.mp h with rfl | h
        · exact Or.inr List.mem_cons_self
        · exact (ih h).imp_right (List.mem_cons_of_mem _)

/-- Every entry of a sorted map was assigned. -/
theorem mem_sorted {entries : List (κ × ν)} {e : κ × ν} (h : e ∈ sorted entries) :
    e ∈ entries := by
  suffices hs : ∀ acc, e ∈ entries.foldl (fun acc e => putSorted e.1 e.2 acc) acc →
      e ∈ entries ∨ e ∈ acc from
    (hs [] h).resolve_right (by simp)
  clear h
  induction entries with
  | nil => exact fun acc h => Or.inr h
  | cons f rest ih =>
    intro acc h
    rcases ih _ h with he | he
    · exact Or.inl (List.mem_cons_of_mem _ he)
    · rcases mem_putSorted he with rfl | he
      · exact Or.inl List.mem_cons_self
      · exact Or.inr he

/-- A lookup finds what was put last under its key, and all else as before. -/
theorem find?_putSorted [BEq κ] [LawfulBEq κ] (key k : κ) (value : ν) (entries : List (κ × ν)) :
    find? (· == k) (Entries.putSorted key value entries) =
      if key == k then some value else find? (· == k) entries := by
  induction entries with
  | nil => simp [Entries.putSorted, find?]
  | cons e rest ih =>
    unfold Entries.putSorted
    split
    next he =>
      simp only [find?, he]
      split <;> rfl
    next hne =>
      split
      next => simp [find?]
      next =>
        simp only [find?, ih]
        by_cases hk : key = k
        · simp [hk ▸ hne, hk]
        · simp [hk]

theorem putSorted_map_value {ν' : Type} (f : ν → ν') (key : κ) (value : ν)
    (entries : List (κ × ν)) :
    putSorted key (f value) (entries.map fun e => (e.1, f e.2)) =
      (putSorted key value entries).map fun e => (e.1, f e.2) := by
  induction entries with
  | nil => rfl
  | cons e rest ih =>
    simp only [List.map_cons, putSorted, ih]
    split
    next => rfl
    next => split <;> rfl

theorem sorted_map_value {ν' : Type} (f : ν → ν') (entries : List (κ × ν)) :
    sorted (entries.map fun e => (e.1, f e.2)) = (sorted entries).map fun e => (e.1, f e.2) := by
  suffices h : ∀ acc : List (κ × ν),
      (entries.map fun e => (e.1, f e.2)).foldl (fun acc e => putSorted e.1 e.2 acc)
        (acc.map fun e => (e.1, f e.2)) =
      (entries.foldl (fun acc e => putSorted e.1 e.2 acc) acc).map fun e => (e.1, f e.2) from
    h []
  induction entries with
  | nil => exact fun acc => rfl
  | cons e rest ih =>
    intro acc
    rw [List.map_cons, List.foldl_cons, List.foldl_cons]
    dsimp only
    rw [putSorted_map_value, ih]

variable [LE κ] [Std.LawfulOrderLT κ]

/-- Putting what is there already changes nothing. -/
theorem putSorted_of_find? [BEq κ] [LawfulBEq κ] {key : κ} {value : ν} {entries : List (κ × ν)}
    (ha : Ascending entries) (h : find? (· == key) entries = some value) :
    Entries.putSorted key value entries = entries := by
  induction entries with
  | nil => cases h
  | cons e rest ih =>
    have ha := List.pairwise_cons.mp ha
    by_cases he : e.1 = key
    · rw [find?, if_pos (beq_iff_eq.mpr he)] at h
      rw [Entries.putSorted, if_pos he, ← Option.some.inj h]
    · rw [find?, if_neg (by simpa using he)] at h
      have hlt : e.1 < key := ha.1 key (mem_keys_of_mem (mem_of_find? h))
      rw [Entries.putSorted, if_neg he, if_neg (Std.not_gt_of_lt hlt), ih ha.2 h]

/-- A key above all others goes to the end. -/
theorem putSorted_of_forall_lt {key : κ} {value : ν} {entries : List (κ × ν)}
    (h : ∀ k ∈ keys entries, k < key) :
    Entries.putSorted key value entries = entries ++ [(key, value)] := by
  induction entries with
  | nil => rfl
  | cons e rest ih =>
    have he : e.1 < key := h e.1 List.mem_cons_self
    rw [Entries.putSorted, if_neg (Std.ne_of_lt he), if_neg (Std.not_gt_of_lt he),
      ih fun k hk => h k (List.mem_cons_of_mem _ hk)]
    rfl

/-- Assignments to ascending keys make the list of themselves. -/
theorem sorted_of_ascending {entries : List (κ × ν)} (h : Ascending entries) :
    sorted entries = entries := by
  suffices hs : ∀ acc : List (κ × ν), Ascending (acc ++ entries) →
      entries.foldl (fun acc e => Entries.putSorted e.1 e.2 acc) acc = acc ++ entries from
    hs [] h
  clear h
  induction entries with
  | nil => simp
  | cons e rest ih =>
    intro acc h
    have he : ∀ k ∈ keys acc, k < e.1 := by
      rw [Ascending, keys_append, List.pairwise_append] at h
      exact fun k hk => h.2.2 k hk e.1 List.mem_cons_self
    rw [List.foldl_cons, putSorted_of_forall_lt he, ih _ (by simpa using h)]
    simp

variable [Std.IsLinearOrder κ]

theorem Ascending.putSorted {key : κ} {value : ν} {entries : List (κ × ν)}
    (h : Ascending entries) : Ascending (putSorted key value entries) := by
  unfold Ascending at *
  induction entries with
  | nil => simp [Entries.putSorted]
  | cons e rest ih =>
    rw [keys_cons, List.pairwise_cons] at h
    unfold Entries.putSorted
    split
    next he => exact List.pairwise_cons.mpr h
    next hne =>
      split
      next hlt =>
        refine List.pairwise_cons.mpr ⟨fun k hk => ?_, List.pairwise_cons.mpr h⟩
        rcases List.mem_cons.mp hk with rfl | hk
        · exact hlt
        · exact Std.lt_trans hlt (h.1 k hk)
      next hnlt =>
        refine List.pairwise_cons.mpr ⟨fun k hk => ?_, ih h.2⟩
        rcases mem_keys_putSorted.mp hk with rfl | hk
        · exact ((Std.lt_trichotomy _ _).resolve_right fun hor =>
            hor.elim hne hnlt)
        · exact h.1 k hk

theorem ascending_sorted (entries : List (κ × ν)) : Ascending (sorted entries) := by
  suffices h : ∀ acc : List (κ × ν), Ascending acc →
      Ascending (entries.foldl (fun acc e => Entries.putSorted e.1 e.2 acc) acc) from
    h [] .nil
  induction entries with
  | nil => exact fun acc h => h
  | cons e rest ih => exact fun acc h => ih _ h.putSorted

end Order

end CallSampler.Entries
