import CallSampler.Proofs.Json.NumberText
import CallSampler.Proofs.Json.Reading
import CallSampler.Proofs.Record.Slots

/-!
# The file form of a record

A record whose indices fit a machine word is what its own document reads back to
(`ofJson?_toJson`). The document adds three levels around a sample: the record, its slots, and the
slot. What is read from a document keeps those bounds, whichever of the two forms it has.
-/

namespace CallSampler.Record

variable {r : Record} {j : Json} {room : Nat}

theorem mapM_eq_some_of_forall {α : Type} {f : α → Option α} {xs : List α}
    (h : ∀ x ∈ xs, f x = some x) : xs.mapM f = some xs := by
  induction xs with
  | nil => rfl
  | cons x rest ih =>
    obtain ⟨hx, hrest⟩ := List.forall_mem_cons.mp h
    simp [hx, ih hrest]

theorem mem_of_mapM_eq_some {α β : Type} {f : α → Option β} {xs : List α} {ys : List β}
    (h : xs.mapM f = some ys) : ∀ y ∈ ys, ∃ x ∈ xs, f x = some y := by
  induction xs generalizing ys with
  | nil =>
    cases h
    simp
  | cons x rest ih =>
    rw [List.mapM_cons] at h
    obtain ⟨y, hy, h⟩ := Option.bind_eq_some_iff.mp h
    obtain ⟨zs, hzs, h⟩ := Option.bind_eq_some_iff.mp h
    cases h
    refine List.forall_mem_cons.mpr ⟨⟨x, List.mem_cons_self, hy⟩, fun z hz => ?_⟩
    obtain ⟨x', hx', hz⟩ := ih hzs z hz
    exact ⟨x', List.mem_cons_of_mem _ hx', hz⟩

/-! ## Numbers -/

theorem fits_ofNat {n : Nat} : fits (n : Int) ↔ n < wordLimit := by
  simp [fits]

theorem toNat_lt_of_fits {i : Int} (h : fits i) : i.toNat < wordLimit := by
  simp only [fits, Bool.and_eq_true, decide_eq_true_eq] at h
  exact h.2

theorem callCount?_ofNat (n : UInt64) : callCount? (.ofNat n.toNat) = some n := by
  simp [callCount?, Json.ofNat, fits_ofNat.mpr (Word.toNat_lt n)]

/-- An index is read back from its numeral. -/
theorem index?_repr {n : Nat} (h : n < wordLimit) : index? (Nat.repr n) = some n := by
  have hcs : (Nat.repr n).toList = Decimal.digitChars n := Nat.toList_repr
  have hdigits : (Decimal.digitChars n).all Char.isDigit :=
    List.all_eq_true.mpr fun c hc => Number.isDigit_of_mem_digitChars hc
  have hhead : (Decimal.digitChars n).head? ≠ some '0' ∨ (Decimal.digitChars n).length = 1 := by
    rcases Nat.eq_zero_or_pos n with rfl | hpos
    · exact Or.inr rfl
    · exact Or.inl (Number.head?_digitChars_ne_zero hpos)
  have hvalue : (Decimal.digitChars n).foldl
      (fun n c => 10 * n + (c.toNat - '0'.toNat)) 0 = n := by
    rw [← Nat.ofDigitChars_eq_foldl]
    exact Nat.ofDigitChars_ten_toDigits
  rw [index?, hcs]
  cases hcons : Decimal.digitChars n with
  | nil => exact absurd hcons Nat.toDigits_ne_nil
  | cons c cs =>
    rw [hcons] at hdigits hhead hvalue
    simp only [hdigits, hhead, hvalue, fits_ofNat.mpr h, true_and, if_true]

theorem eq_of_repr_eq {m n : Nat} (h : Nat.repr m = Nat.repr n) : m = n := by
  have hd := congrArg (fun s => Nat.ofDigitChars 10 s.toList 0) h
  simpa only [Nat.toList_repr, Nat.ofDigitChars_ten_toDigits] using hd

theorem lt_of_index? {key : String} {n : Nat} (h : index? key = some n) : n < wordLimit := by
  unfold index? at h
  split at h
  next => cases h
  next =>
    split at h
    next =>
      dsimp only at h
      split at h
      next hf =>
        cases h
        exact fits_ofNat.mp hf
      next => cases h
    next => cases h

/-! ## What is read -/

/-- Every index fits a machine word, and every sample stands where there is so much room. -/
abbrev Within (room : Nat) (r : Record) : Prop :=
  r.Slots fun i items => i < wordLimit ∧ ∀ s ∈ items, s.Within room

/-- Every float of every sample reads back from its text. -/
abbrev FloatsReadBack (r : Record) : Prop := r.Slots fun _ items => ∀ s ∈ items, s.FloatsReadBack

theorem ofParts?_eq_some {count names slots : Option Json}
    (h : ofParts? count names slots = some r) :
    ∃ read, (∃ j, count = some j ∧ callCount? j = some r.callCount) ∧
      optional [] slots? slots = some read ∧ r.slots = Entries.sorted read := by
  obtain ⟨j, hj, h⟩ := Option.bind_eq_some_iff.mp h
  obtain ⟨n, hn, h⟩ := Option.bind_eq_some_iff.mp h
  obtain ⟨ps, -, h⟩ := Option.bind_eq_some_iff.mp h
  obtain ⟨read, hread, h⟩ := Option.bind_eq_some_iff.mp h
  cases h
  exact ⟨read, ⟨j, hj, hn⟩, hread, rfl⟩

/-- A slot that is read is an array two levels inside the record. -/
theorem slots_of_ofParts? {count names slots : Option Json} {parts : List Json}
    (hslots : ∀ d, slots = some d → d ∈ parts) (h : ofParts? count names slots = some r) :
    r.Slots fun i items => i < wordLimit ∧ ∃ d ∈ parts, Json.array items ∈ d.parts := by
  obtain ⟨read, -, hread, hr⟩ := ofParts?_eq_some h
  intro slot hslot
  rw [hr] at hslot
  have hslot := Entries.mem_sorted hslot
  cases slots with
  | none =>
    cases hread
    cases hslot
  | some d =>
    cases d with
    | object entries =>
      obtain ⟨e, he, hs⟩ := mem_of_mapM_eq_some hread slot hslot
      unfold slot? at hs
      split at hs
      next items hitems =>
        obtain ⟨i, hi, rfl⟩ := Option.map_eq_some_iff.mp hs
        exact ⟨lt_of_index? hi, .object entries, hslots _ rfl, List.mem_map.mpr ⟨e, he, hitems⟩⟩
      next => cases hs
    | _ => cases hread

/-- A record is read from three parts of its document. -/
theorem ofParts?_of_ofJson? (h : ofJson? j = some r) : ∃ count names slots,
    ofParts? count names slots = some r ∧ ∀ d, slots = some d → d ∈ j.parts := by
  unfold ofJson? at h
  split at h
  next entries => exact ⟨_, _, _, h, fun d hd => Json.mem_parts_of_get? hd⟩
  next a => exact ⟨_, _, _, h, fun d hd => by cases hd⟩
  next a b => exact ⟨_, _, _, h, fun d hd => by cases hd⟩
  next a b c =>
    refine ⟨_, _, _, h, fun d hd => ?_⟩
    cases hd
    simp [Json.parts]
  next => cases h

theorem slots_of_ofJson? (h : ofJson? j = some r) :
    r.Slots fun i items => i < wordLimit ∧ ∃ d ∈ j.parts, Json.array items ∈ d.parts := by
  obtain ⟨count, names, slots, h, hslots⟩ := ofParts?_of_ofJson? h
  exact slots_of_ofParts? hslots h

/-- A sample that is read has three levels less than the document. -/
theorem within_of_ofJson? (hj : j.Within (room + 3)) (h : ofJson? j = some r) : r.Within room := by
  intro slot hslot
  obtain ⟨hi, d, hd, ha⟩ := slots_of_ofJson? h slot hslot
  exact ⟨hi, fun s hs => ((hj.parts hd).parts ha).parts hs⟩

/-! ## What is written -/

theorem paramNames?_map_string (names : List String) :
    paramNames? (.array (names.map .string)) = some names := by
  rw [paramNames?, List.mapM_map]
  exact mapM_eq_some_of_forall fun _ _ => rfl

theorem slots?_map_array {slots : List (Nat × List Json)} (h : ∀ slot ∈ slots, slot.1 < wordLimit) :
    slots? (.object (slots.map fun slot => (Nat.repr slot.1, .array slot.2))) = some slots := by
  rw [slots?, List.mapM_map]
  refine mapM_eq_some_of_forall fun slot hslot => ?_
  simp [slot?, index?_repr (h slot hslot)]

/-- A record is read back from its document. -/
theorem ofJson?_toJson (hr : r.Within room) : ofJson? r.toJson = some r := by
  have hslots := slots?_map_array fun slot hslot => (hr slot hslot).1
  have hsorted := Entries.sorted_of_ascending r.ascending
  simp [ofJson?, toJson, ofParts?, Entries.get?, Entries.find?, callCount?_ofNat, optional,
    paramNames?_map_string, hslots, hsorted]

/-- The keys of the slots are as distinct as their indices. -/
theorem nodup_keys_slots :
    (Entries.keys (r.slots.map fun slot => (Nat.repr slot.1, Json.array slot.2))).Nodup := by
  rw [Entries.keys, List.map_map]
  refine List.pairwise_map.mpr ((List.pairwise_map.mp r.ascending).imp fun h he => ?_)
  exact absurd (eq_of_repr_eq he) (by omega)

theorem within_toJson (hr : r.Within room) : r.toJson.Within (room + 3) := by
  have hcount := Json.wellFormed_ofNat (Word.toNat_lt r.callCount)
  have hnames : (Json.array (r.paramNames.map .string)).Within (room + 1 + 1) := by
    refine Json.within_array fun j hj => ?_
    obtain ⟨s, -, rfl⟩ := List.mem_map.mp hj
    exact ⟨Json.wellFormed_string s, Nat.zero_le _⟩
  have hslots : (Json.object (r.slots.map fun slot => (Nat.repr slot.1, .array slot.2))).Within
      (room + 1 + 1) := by
    refine Json.within_object ⟨?_, fun e he => ?_⟩
    · exact nodup_keys_slots
    · obtain ⟨slot, hslot, rfl⟩ := List.mem_map.mp he
      exact Json.within_array (hr slot hslot).2
  refine Json.within_object ⟨by simp [Entries.keys], ?_⟩
  refine List.forall_mem_cons.mpr ⟨⟨hcount, Nat.zero_le _⟩, ?_⟩
  exact List.forall_mem_cons.mpr ⟨hnames, List.forall_mem_cons.mpr ⟨hslots, by simp⟩⟩

/-- What holds of every sample and of all but floats holds everywhere in the document. -/
theorem everywhere_toJson {P : Json → Prop} (hP : ∀ j, (∀ x, j ≠ .number (.float x)) → P j)
    (h : r.Slots fun _ items => ∀ j ∈ items, j.Everywhere P) : r.toJson.Everywhere P := by
  have hcount : (Json.ofNat r.callCount.toNat).Everywhere P := hP _ (by simp [Json.ofNat])
  have hnames : (Json.array (r.paramNames.map .string)).Everywhere P := by
    refine Json.everywhere_array.mpr ⟨hP _ (by simp), fun j hj => ?_⟩
    obtain ⟨s, -, rfl⟩ := List.mem_map.mp hj
    exact hP _ (by simp)
  have hslots : (Json.object
      (r.slots.map fun slot => (Nat.repr slot.1, .array slot.2))).Everywhere P := by
    refine Json.everywhere_object.mpr ⟨hP _ (by simp), fun e he => ?_⟩
    obtain ⟨slot, hslot, rfl⟩ := List.mem_map.mp he
    exact Json.everywhere_array.mpr ⟨hP _ (by simp), h slot hslot⟩
  refine Json.everywhere_object.mpr ⟨hP _ (by simp), List.forall_mem_cons.mpr ⟨hcount, ?_⟩⟩
  exact List.forall_mem_cons.mpr ⟨hnames, List.forall_mem_cons.mpr ⟨hslots, by simp⟩⟩

end CallSampler.Record
