import CallSampler.Proofs.Entries
import CallSampler.Proofs.Json.Settling
import CallSampler.Proofs.Record.Codec

/-!
# Which documents are records

The documents that are read as records, said without the reader (`Record.FormOf`): an object whose
count is an integer of 64 bits without a sign, whose names are texts and whose slots are arrays
under the numerals of indices, or an array of one to three such components. The reader accepts these
and no others, and makes of each the record that it is a form of (`ofJson?_eq_some_iff`). A numeral
has one spelling, so that two keys never meet at one index; and of number literals those are counts
that have neither sign, point nor exponent and fit (`ofLiteral?_eq_natural_iff`).
-/

namespace CallSampler

namespace Number

open Decimal

/-- What is left out of a significand makes it too great. -/
theorem absorb_eq {n : Nat} {ds : List Char} (h : (absorb n ds).2 = 0) :
    (absorb n ds).1 = Nat.ofDigitChars 10 ds n := by
  induction ds generalizing n with
  | nil => simp [absorb]
  | cons d ds ih =>
    unfold absorb at h ⊢
    dsimp only at h ⊢
    split at h
    next hn =>
      rw [if_pos hn, Nat.ofDigitChars_cons]
      exact ih h
    next => cases h

theorem ofDigits_eq (ds : List Char) : ofDigits ds = Nat.ofDigitChars 10 ds 0 :=
  Nat.ofDigitChars_eq_foldl.symm

theorem ofWhole?_eq_natural_iff {negative : Bool} {significand dropped n : Nat} :
    ofWhole? negative significand dropped = some (.integer n) ↔
      negative = false ∧ dropped = 0 ∧ significand = n := by
  unfold ofWhole?
  split
  next hd =>
    constructor
    · intro h
      exact absurd h ofScaled?_ne_integer
    · rintro ⟨-, h, -⟩
      exact absurd h hd
  next hd =>
    have hd : dropped = 0 := Decidable.of_not_not hd
    cases negative with
    | false =>
      simp only [Bool.not_false, if_true, Option.some.injEq, Number.integer.injEq,
        Int.natCast_inj, true_and, hd]
    | true =>
      simp only [Bool.not_true, Bool.false_eq_true, if_false, Bool.true_eq_false, false_and,
        iff_false]
      split
      next hrange =>
        intro h
        injection h with h
        injection h with h
        omega
      next => simp

/-- The literals that are read as integers of 64 bits without a sign. -/
theorem ofLiteral?_eq_natural_iff {l : Literal} {n : Nat} :
    ofLiteral? l = some (.integer n) ↔
      l.negative = false ∧ l.fraction = none ∧ l.exponent = none ∧
        ofDigits l.whole = n ∧ n < wordLimit := by
  have hwhole : (absorb 0 l.whole).2 = 0 ∧ (absorb 0 l.whole).1 = n ↔
      ofDigits l.whole = n ∧ n < wordLimit := by
    rw [ofDigits_eq]
    constructor
    · rintro ⟨hd, rfl⟩
      exact ⟨(absorb_eq hd).symm, absorb_lt (by decide) _⟩
    · rintro ⟨rfl, hlt⟩
      rw [absorb_of_lt hlt]
      exact ⟨rfl, rfl⟩
  unfold ofLiteral?
  split
  next hf he => rw [ofWhole?_eq_natural_iff, hwhole, hf, he]; simp
  next hne =>
    constructor
    · intro h
      exact absurd h ofDecimal?_ne_integer
    · rintro ⟨-, hf, he, -⟩
      exact absurd he (hne hf)

end Number

namespace Record

variable {r : Record} {j : Json}

/-! ## Indices -/

theorem digitValue_lt {c : Char} (h : c.isDigit) : Decimal.digitValue c < 10 := by
  have hbounds := Char.isDigit_iff_toNat.mp h
  have hzero : '0'.toNat = 48 := rfl
  have hnine : '9'.toNat = 57 := rfl
  unfold Decimal.digitValue
  omega

theorem toDigits_digitValue {c : Char} (h : c.isDigit) :
    Nat.toDigits 10 (Decimal.digitValue c) = [c] := by
  have hlow := (Char.isDigit_iff_toNat.mp h).1
  have hzero : '0'.toNat = 48 := rfl
  have hlt := digitValue_lt h
  have hchar : (Decimal.digitValue c).digitChar = c := by
    apply Char.toNat_inj.mp
    rw [Nat.toNat_digitChar_of_lt_ten hlt, Decimal.digitValue]
    omega
  rw [Nat.toDigits_of_lt_base hlt, hchar]

/-- More digits behind a numeral are its last digits. -/
theorem toDigits_ofDigitChars {ds : List Char} (h : ∀ c ∈ ds, c.isDigit) {n : Nat} (hn : 0 < n) :
    Nat.toDigits 10 (Nat.ofDigitChars 10 ds n) = Nat.toDigits 10 n ++ ds := by
  induction ds generalizing n with
  | nil => simp
  | cons d ds ih =>
    obtain ⟨hd, hds⟩ := List.forall_mem_cons.mp h
    have hvalue : Decimal.digitValue d < 10 := digitValue_lt hd
    rw [Nat.ofDigitChars_cons, ih hds (by omega)]
    change Nat.toDigits 10 (10 * n + Decimal.digitValue d) ++ ds = _
    rw [← Nat.toDigits_append_toDigits (by omega) hn hvalue, toDigits_digitValue hd,
      List.append_assoc]
    rfl

/-- Digits without a leading zero are the numeral of their number. -/
theorem toDigits_ofDigits {c : Char} {cs : List Char} (h : ∀ d ∈ c :: cs, d.isDigit)
    (hlead : c ≠ '0' ∨ cs = []) : Nat.toDigits 10 (Decimal.ofDigits (c :: cs)) = c :: cs := by
  obtain ⟨hc, hcs⟩ := List.forall_mem_cons.mp h
  have hone : Nat.toDigits 10 (Decimal.digitValue c) = [c] := toDigits_digitValue hc
  rw [Number.ofDigits_eq, Nat.ofDigitChars_cons, Nat.mul_zero, Nat.zero_add]
  change Nat.toDigits 10 (Nat.ofDigitChars 10 cs (Decimal.digitValue c)) = c :: cs
  rcases hlead with hne | rfl
  · have hpos : 0 < Decimal.digitValue c := by
      rcases Nat.eq_zero_or_pos (Decimal.digitValue c) with hzero | hpos
      · rw [hzero, Nat.toDigits_zero] at hone
        injection hone with hone
        exact absurd hone.symm hne
      · exact hpos
    rw [toDigits_ofDigitChars hcs hpos, hone]
    rfl
  · exact hone

/-- A key is read as an index exactly if it is its numeral. -/
theorem index?_eq_some_iff {key : String} {n : Nat} :
    index? key = some n ↔ key = Nat.repr n ∧ n < wordLimit := by
  constructor
  · intro h
    refine ⟨?_, lt_of_index? h⟩
    apply String.toList_inj.mp
    rw [Nat.toList_repr]
    unfold index? at h
    cases hkey : key.toList with
    | nil =>
      rw [hkey] at h
      cases h
    | cons c cs =>
      rw [hkey] at h
      dsimp only at h
      split at h
      next hnumeral =>
        obtain ⟨hdigits, hlead⟩ := hnumeral
        split at h
        next =>
          cases h
          have hlead : c ≠ '0' ∨ cs = [] := by simpa using hlead
          exact (toDigits_ofDigits (List.all_eq_true.mp hdigits) hlead).symm
        next => cases h
      next => cases h
  · rintro ⟨rfl, hn⟩
    exact index?_repr hn

/-! ## Components -/

theorem callCount?_eq_some_iff {n : UInt64} : callCount? j = some n ↔ j = .ofNat n.toNat := by
  constructor
  · intro h
    unfold callCount? at h
    split at h
    next i =>
      split at h
      next hf =>
        cases h
        have hlt := toNat_lt_of_fits hf
        simp only [fits, Bool.and_eq_true, decide_eq_true_eq] at hf
        rw [Json.ofNat, UInt64.toNat_ofNat_of_lt' hlt, Int.toNat_of_nonneg hf.1]
      next => cases h
    next => cases h
  · rintro rfl
    exact callCount?_ofNat n

/-- What is read item by item is the image of what is made of it. -/
theorem mapM_eq_some_iff {α β : Type} {f : α → Option β} {g : β → α} {P : β → Prop}
    (h : ∀ x y, f x = some y ↔ x = g y ∧ P y) {xs : List α} {ys : List β} :
    xs.mapM f = some ys ↔ xs = ys.map g ∧ ∀ y ∈ ys, P y := by
  induction xs generalizing ys with
  | nil =>
    cases ys <;> simp
  | cons x rest ih =>
    rw [List.mapM_cons]
    constructor
    · intro hm
      obtain ⟨y, hy, hm⟩ := Option.bind_eq_some_iff.mp hm
      obtain ⟨zs, hzs, hm⟩ := Option.bind_eq_some_iff.mp hm
      cases hm
      obtain ⟨hx, hP⟩ := (h x y).mp hy
      obtain ⟨hrest, hPs⟩ := ih.mp hzs
      exact ⟨by rw [List.map_cons, ← hx, ← hrest], List.forall_mem_cons.mpr ⟨hP, hPs⟩⟩
    · rintro ⟨hxs, hP⟩
      cases ys with
      | nil => cases hxs
      | cons y ys =>
        obtain ⟨hPy, hPys⟩ := List.forall_mem_cons.mp hP
        injection hxs with hx hrest
        rw [(h x y).mpr ⟨hx, hPy⟩, ih.mpr ⟨hrest, hPys⟩]
        rfl

theorem paramNames?_eq_some_iff {names : List String} :
    paramNames? j = some names ↔ j = .array (names.map .string) := by
  constructor
  · intro h
    cases j with
    | array items =>
      rw [paramNames?, mapM_eq_some_iff (g := .string) (P := fun _ => True)] at h
      · rw [h.1]
      · intro item s
        cases item <;> simp
    | _ => cases h
  · rintro rfl
    exact paramNames?_map_string names

/-- Slots that a document gives: arrays under the numerals of indices. -/
theorem slots?_eq_some_iff {slots : List (Nat × List Json)} :
    slots? j = some slots ↔
      j = .object (slots.map fun slot => (Nat.repr slot.1, .array slot.2)) ∧
        ∀ slot ∈ slots, slot.1 < wordLimit := by
  constructor
  · intro h
    cases j with
    | object entries =>
      have hentry : ∀ (e : String × Json) (slot : Nat × List Json),
          slot? e = some slot ↔
            e = (Nat.repr slot.1, Json.array slot.2) ∧ slot.1 < wordLimit := by
        rintro ⟨key, value⟩ ⟨i, items⟩
        cases value with
        | array given =>
          simp only [slot?, Option.map_eq_some_iff, index?_eq_some_iff, Prod.mk.injEq,
            Json.array.injEq]
          constructor
          · rintro ⟨n, ⟨hkey, hn⟩, rfl, hitems⟩
            exact ⟨⟨hkey, hitems⟩, hn⟩
          · rintro ⟨⟨hkey, hitems⟩, hi⟩
            exact ⟨i, ⟨hkey, hi⟩, rfl, hitems⟩
        | _ => simp [slot?]
      rw [slots?, mapM_eq_some_iff hentry] at h
      rw [← h.1]
      exact ⟨rfl, h.2⟩
    | _ => cases h
  · rintro ⟨rfl, hs⟩
    exact slots?_map_array hs

/-- What an optional component says: a default where it is absent. -/
def Optionally (absent : Prop) (present : Json → Prop) : Option Json → Prop
  | none => absent
  | some j => present j

theorem optional_eq_some_iff {α : Type} {fallback x : α} {read : Json → Option α}
    {given? : Option Json} :
    optional fallback read given? = some x ↔
      Optionally (x = fallback) (fun j => read j = some x) given? := by
  cases given? with
  | none => simp [optional, Optionally, eq_comm]
  | some j => rfl

/-! ## Forms -/

/-- The components of a form of a record, of which the last two may be absent. -/
structure FormOfParts (r : Record) (count : Json) (names slots : Option Json) : Prop where
  count : count = .ofNat r.callCount.toNat
  names : Optionally (r.paramNames = []) (· = .array (r.paramNames.map .string)) names
  /-- Each slot of the record is given once, in any order. -/
  slots : Optionally (r.slots = [])
    (fun j => ∃ given : List (Nat × List Json),
      j = .object (given.map fun slot => (Nat.repr slot.1, .array slot.2)) ∧
        (∀ slot ∈ given, slot.1 < wordLimit) ∧ r.slots.Perm given) slots

/-- The documents that are a record: objects with the components as entries, whatever else they
hold, and arrays of one to three components in order. -/
inductive FormOf (r : Record) : Json → Prop
  | entries {entries : List (String × Json)} {count : Json}
    (hc : Entries.get? "callCount" entries = some count)
    (h : r.FormOfParts count (Entries.get? "paramNames" entries)
      (Entries.get? "paramData" entries)) : FormOf r (.object entries)
  | one {count : Json} (h : r.FormOfParts count none none) : FormOf r (.array [count])
  | two {count names : Json} (h : r.FormOfParts count (some names) none) :
    FormOf r (.array [count, names])
  | three {count names slots : Json} (h : r.FormOfParts count (some names) (some slots)) :
    FormOf r (.array [count, names, slots])

/-- No two keys of an object are the numerals of one index. -/
theorem nodup_keys_given {given : List (Nat × List Json)}
    (hw : (Json.object (given.map fun slot => (Nat.repr slot.1, .array slot.2))).DistinctKeys) :
    (Entries.keys given).Nodup := by
  have hkeys := (Json.distinctKeys_object.mp hw).1
  rw [Entries.keys, List.map_map] at hkeys
  exact List.pairwise_map.mpr ((List.pairwise_map.mp hkeys).imp fun hne he => hne (by
    rw [Function.comp_apply, Function.comp_apply, he]))

theorem optionally_slots_iff {slots : Option Json} (hw : ∀ j, slots = some j → j.DistinctKeys) :
    (∃ given, optional [] slots? slots = some given ∧ r.slots = Entries.sorted given) ↔
      Optionally (r.slots = [])
        (fun j => ∃ given : List (Nat × List Json),
          j = .object (given.map fun slot => (Nat.repr slot.1, .array slot.2)) ∧
            (∀ slot ∈ given, slot.1 < wordLimit) ∧ r.slots.Perm given) slots := by
  cases slots with
  | none => simp [optional, Optionally, Entries.sorted]
  | some j =>
    constructor
    · rintro ⟨given, hread, hr⟩
      obtain ⟨rfl, hlt⟩ := slots?_eq_some_iff.mp hread
      have hn := nodup_keys_given (hw _ rfl)
      exact ⟨given, rfl, hlt, (Entries.eq_sorted_iff r.ascending hn).mp hr⟩
    · rintro ⟨given, rfl, hlt, hperm⟩
      have hn := nodup_keys_given (hw _ rfl)
      exact ⟨given, slots?_eq_some_iff.mpr ⟨rfl, hlt⟩,
        (Entries.eq_sorted_iff r.ascending hn).mpr hperm⟩

theorem ofParts?_eq_some_iff {count : Json} {names slots : Option Json}
    (hw : ∀ j, slots = some j → j.DistinctKeys) :
    ofParts? (some count) names slots = some r ↔ r.FormOfParts count names slots := by
  have hnames : optional [] paramNames? names = some r.paramNames ↔
      Optionally (r.paramNames = []) (· = .array (r.paramNames.map .string)) names := by
    rw [optional_eq_some_iff]
    simp only [paramNames?_eq_some_iff]
  constructor
  · intro h
    obtain ⟨n, hn, h⟩ := Option.bind_eq_some_iff.mp h
    obtain ⟨ps, hps, h⟩ := Option.bind_eq_some_iff.mp h
    obtain ⟨given, hgiven, h⟩ := Option.bind_eq_some_iff.mp h
    cases h
    exact ⟨callCount?_eq_some_iff.mp hn, hnames.mp hps,
      (optionally_slots_iff hw).mp ⟨given, hgiven, rfl⟩⟩
  · rintro ⟨hcount, hps, hslots⟩
    obtain ⟨given, hgiven, hr⟩ := (optionally_slots_iff hw).mpr hslots
    rw [ofParts?, Option.bind_eq_bind, Option.bind_some, callCount?_eq_some_iff.mpr hcount,
      hnames.mpr hps, hgiven]
    obtain ⟨n, ps, ss, ha⟩ := r
    cases hr
    rfl

/-- The reader accepts the forms of records, and makes of each what it is a form of. -/
theorem ofJson?_eq_some_iff (hw : j.DistinctKeys) : ofJson? j = some r ↔ r.FormOf j := by
  have hnone : ∀ k, (none : Option Json) = some k → k.DistinctKeys := fun k h => by cases h
  constructor
  · intro h
    unfold ofJson? at h
    split at h
    next entries =>
      cases hc : Entries.get? "callCount" entries with
      | none =>
        rw [hc] at h
        cases h
      | some count =>
        rw [hc] at h
        refine .entries hc ((ofParts?_eq_some_iff fun k hk => ?_).mp h)
        exact Json.Everywhere.parts hw k (Json.mem_parts_of_get? hk)
    next a => exact .one ((ofParts?_eq_some_iff hnone).mp h)
    next a b => exact .two ((ofParts?_eq_some_iff hnone).mp h)
    next a b c =>
      refine .three ((ofParts?_eq_some_iff fun k hk => ?_).mp h)
      cases hk
      exact Json.Everywhere.parts hw _ (by simp [Json.parts])
    next => cases h
  · intro h
    cases h with
    | entries hc h =>
      rw [ofJson?, hc]
      refine (ofParts?_eq_some_iff fun k hk => ?_).mpr h
      exact Json.Everywhere.parts hw k (Json.mem_parts_of_get? hk)
    | one h => exact (ofParts?_eq_some_iff hnone).mpr h
    | two h => exact (ofParts?_eq_some_iff hnone).mpr h
    | three h =>
      refine (ofParts?_eq_some_iff fun k hk => ?_).mpr h
      cases hk
      exact Json.Everywhere.parts hw _ (by simp [Json.parts])

end Record

end CallSampler
