import CallSampler.Proofs.Json.WellFormed

/-!
# Number literals in context

Reading a number from the front of a text does not depend on what follows, as long as that cannot
continue the literal (`read?_append`). So it is enough to read the text of a number on its own, and
every integer of 64 bits reads back from there (`read?_text_integer`).
-/

namespace CallSampler.Number

open Decimal

/-- What may follow a number: nothing, or a character that continues no literal. -/
def Ends (rest : List Char) : Prop :=
  ∀ c ∈ rest.head?, c.isDigit = false ∧ c ≠ '.' ∧ c ≠ 'e' ∧ c ≠ 'E'

theorem ends_nil : Ends [] := by
  intro c h
  cases h

theorem ends_cons {c : Char} {rest : List Char}
    (h : c.isDigit = false ∧ c ≠ '.' ∧ c ≠ 'e' ∧ c ≠ 'E') : Ends (c :: rest) := by
  rintro d hd
  cases Option.some.inj hd
  exact h

theorem ends_append {cs rest : List Char} (h : Ends cs) (hrest : Ends rest) :
    Ends (cs ++ rest) := by
  cases cs with
  | nil => exact hrest
  | cons c cs => exact ends_cons (h c rfl)

/-! ## The parts of a literal -/

theorem spanDigits_append {rest : List Char} (he : Ends rest) (cs : List Char) :
    spanDigits (cs ++ rest) = ((spanDigits cs).1, (spanDigits cs).2 ++ rest) := by
  induction cs with
  | nil =>
    cases rest with
    | nil => rfl
    | cons c rest =>
      have hc := (he c rfl).1
      simp [spanDigits, hc]
  | cons c cs ih =>
    unfold spanDigits at ih ⊢
    by_cases hc : c.isDigit
    · simpa [hc] using ih
    · simp [hc]

theorem wholeDigits?_append {cs ds r rest : List Char} (h : wholeDigits? cs = some (ds, r))
    (he : Ends rest) : wholeDigits? (cs ++ rest) = some (ds, r ++ rest) := by
  unfold wholeDigits? at h ⊢
  rw [spanDigits_append he]
  cases hs : spanDigits cs with
  | mk digits tail =>
    simp only [hs] at h ⊢
    split at h <;> simp_all

theorem fraction?_append {cs r rest : List Char} {f : Option (List Char)}
    (h : fraction? cs = some (f, r)) (he : Ends rest) :
    fraction? (cs ++ rest) = some (f, r ++ rest) := by
  cases cs with
  | nil =>
    obtain ⟨rfl, rfl⟩ : none = f ∧ [] = r := by simpa [fraction?] using h
    cases rest with
    | nil => rfl
    | cons c rest =>
      have hc := (he c rfl).2.1
      simp [fraction?]
      split <;> simp_all
  | cons c cs =>
    by_cases hc : c = '.'
    · subst hc
      simp only [List.cons_append, fraction?] at h ⊢
      rw [spanDigits_append he]
      cases hs : spanDigits cs with
      | mk digits tail =>
        simp only [hs] at h ⊢
        split at h <;> simp_all
    · simp only [List.cons_append, fraction?] at h ⊢
      obtain ⟨rfl, rfl⟩ : none = f ∧ c :: cs = r := by simpa [hc] using h
      simp [hc]

theorem readSign_append {cs : List Char} (hne : cs ≠ []) (rest : List Char) :
    readSign (cs ++ rest) = ((readSign cs).1, (readSign cs).2 ++ rest) := by
  cases cs with
  | nil => exact absurd rfl hne
  | cons c cs =>
    simp only [List.cons_append]
    unfold readSign
    split <;> simp_all

theorem exponent?_append {cs r rest : List Char} {e : Option (Bool × List Char)}
    (h : exponent? cs = some (e, r)) (he : Ends rest) :
    exponent? (cs ++ rest) = some (e, r ++ rest) := by
  cases cs with
  | nil =>
    obtain ⟨rfl, rfl⟩ : none = e ∧ [] = r := by simpa [exponent?] using h
    cases rest with
    | nil => rfl
    | cons c rest =>
      obtain ⟨-, -, h1, h2⟩ := he c rfl
      simp [exponent?, h1, h2]
  | cons c cs =>
    simp only [List.cons_append, exponent?] at h ⊢
    split at h
    next hc =>
      -- an exponent needs a digit, so the sign is read from the literal and not from the rest
      have hne : cs ≠ [] := by
        rintro rfl
        simp [readSign, spanDigits] at h
      rw [if_pos hc, readSign_append hne]
      simp only [spanDigits_append he]
      split at h
      next => cases h
      next hs => simp_all
    next hc =>
      obtain ⟨rfl, rfl⟩ : none = e ∧ c :: cs = r := by simpa using h
      rw [if_neg hc]
      rfl

theorem unsigned?_append {negative : Bool} {cs r rest : List Char} {l : Literal}
    (h : unsigned? negative cs = some (l, r)) (he : Ends rest) :
    unsigned? negative (cs ++ rest) = some (l, r ++ rest) := by
  obtain ⟨⟨whole, r₁⟩, hw, h⟩ := Option.bind_eq_some_iff.mp h
  obtain ⟨⟨fraction, r₂⟩, hf, h⟩ := Option.bind_eq_some_iff.mp h
  obtain ⟨⟨exponent, r₃⟩, hx, h⟩ := Option.bind_eq_some_iff.mp h
  obtain ⟨rfl, rfl⟩ := Prod.mk.inj (Option.some.inj h)
  simp [unsigned?, wholeDigits?_append hw he, fraction?_append hf he, exponent?_append hx he]

theorem literal?_cons {c : Char} (hc : c ≠ '-') (cs : List Char) :
    literal? (c :: cs) = unsigned? false (c :: cs) := by
  unfold literal?
  split <;> simp_all

theorem literal?_append {cs r rest : List Char} {l : Literal} (h : literal? cs = some (l, r))
    (he : Ends rest) : literal? (cs ++ rest) = some (l, r ++ rest) := by
  cases cs with
  | nil => cases h
  | cons c cs =>
    by_cases hc : c = '-'
    · subst hc
      exact unsigned?_append h he
    · rw [literal?_cons hc] at h
      rw [List.cons_append, literal?_cons hc]
      exact unsigned?_append h he

/-- What a number is read as does not depend on what follows it. -/
theorem read?_append {cs r rest : List Char} {n : Number} (h : read? cs = some (n, r))
    (he : Ends rest) : read? (cs ++ rest) = some (n, r ++ rest) := by
  obtain ⟨⟨l, r'⟩, hl, h⟩ := Option.bind_eq_some_iff.mp h
  obtain ⟨m, hm, h⟩ := Option.bind_eq_some_iff.mp h
  obtain ⟨rfl, rfl⟩ := Prod.mk.inj (Option.some.inj h)
  simp [read?, literal?_append hl he, hm]

/-! ## Integers -/

theorem head?_digitChars_ne_zero {n : Nat} (h : 0 < n) : (digitChars n).head? ≠ some '0' := by
  unfold digitChars
  induction n using Nat.strongRecOn with
  | _ n ih =>
    by_cases hn : n < 10
    · rw [Nat.toDigits_of_lt_base hn]
      have digits : ∀ d < 10, 0 < d → d.digitChar ≠ '0' := by decide
      simpa using digits n hn h
    · rw [Nat.toDigits_of_base_le (by omega) (by omega), List.head?_append]
      have hq := ih (n / 10) (by omega) (by omega)
      cases hd : Nat.toDigits 10 (n / 10) with
      | nil => exact absurd hd Nat.toDigits_ne_nil
      | cons d ds => simpa [hd] using hq

theorem isDigit_of_mem_digitChars {n : Nat} {c : Char} (h : c ∈ digitChars n) : c.isDigit :=
  Nat.isDigit_of_mem_toDigits (by omega) (by omega) h

theorem spanDigits_digitChars (n : Nat) : spanDigits (digitChars n) = (digitChars n, []) := by
  have h : ∀ c ∈ digitChars n, c.isDigit := fun c => isDigit_of_mem_digitChars
  have hs : spanDigits (digitChars n ++ []) = (digitChars n ++ [], []) := by
    rw [spanDigits, List.takeWhile_append_of_pos h, List.dropWhile_append_of_pos h]
    rfl
  rwa [List.append_nil] at hs

theorem wholeDigits?_digitChars (n : Nat) :
    wholeDigits? (digitChars n) = some (digitChars n, []) := by
  unfold wholeDigits?
  rw [spanDigits_digitChars]
  split
  next h => exact absurd (Prod.mk.inj h).1 Nat.toDigits_ne_nil
  next d ds _ h =>
    -- two digits, of which the first is a zero
    have hn : digitChars n = '0' :: d :: ds := (Prod.mk.inj h).1
    rcases Nat.eq_zero_or_pos n with rfl | hpos
    · simp [digitChars] at hn
    · exact absurd (by rw [hn]; rfl) (head?_digitChars_ne_zero hpos)
  next h =>
    obtain ⟨rfl, rfl⟩ := Prod.mk.inj h
    rfl

theorem le_ofDigitChars (ds : List Char) (n : Nat) : n ≤ Nat.ofDigitChars 10 ds n := by
  induction ds generalizing n with
  | nil => simp
  | cons d ds ih =>
    rw [Nat.ofDigitChars_cons]
    exact Nat.le_trans (by omega) (ih _)

/-- All digits of a significand that fits are taken in. -/
theorem absorb_of_lt {n : Nat} {ds : List Char} (h : Nat.ofDigitChars 10 ds n < wordLimit) :
    absorb n ds = (Nat.ofDigitChars 10 ds n, 0) := by
  induction ds generalizing n with
  | nil => simp [absorb]
  | cons d ds ih =>
    rw [Nat.ofDigitChars_cons] at h ⊢
    have hn : 10 * n + digitValue d < wordLimit := Nat.lt_of_le_of_lt (le_ofDigitChars ds _) h
    rw [absorb, if_pos hn]
    exact ih h

theorem absorb_digitChars {n : Nat} (h : n < wordLimit) : absorb 0 (digitChars n) = (n, 0) := by
  have hn : Nat.ofDigitChars 10 (digitChars n) 0 = n := Nat.ofDigitChars_ten_toDigits
  rw [absorb_of_lt (by rwa [hn]), hn]

theorem unsigned?_digitChars (negative : Bool) (n : Nat) :
    unsigned? negative (digitChars n) =
      some ({ negative, whole := digitChars n, fraction := none, exponent := none }, []) := by
  simp [unsigned?, wholeDigits?_digitChars, fraction?, exponent?]

theorem literal?_digitChars (n : Nat) :
    literal? (digitChars n) = unsigned? false (digitChars n) := by
  cases h : digitChars n with
  | nil => rfl
  | cons c cs =>
    have hc : c.isDigit := isDigit_of_mem_digitChars (h ▸ List.mem_cons_self)
    exact literal?_cons (by rintro rfl; simp at hc) cs

/-- Every integer of 64 bits reads back from its text. -/
theorem read?_text_integer {i : Int} (h : Json.IntegerFits i) :
    read? (text (.integer i)) = some (.integer i, []) := by
  obtain ⟨hlow, hhigh⟩ := h
  unfold wordLimit at hhigh
  by_cases hi : i < 0
  · have hn : i.natAbs < wordLimit := by unfold wordLimit; omega
    have hl : literal? ('-' :: digitChars i.natAbs) = unsigned? true (digitChars i.natAbs) := rfl
    have hr : 1 ≤ i.natAbs ∧ i.natAbs ≤ 9223372036854775808 := by omega
    have hv : -(i.natAbs : Int) = i := by omega
    have hw : ofWhole? true i.natAbs 0 = some (.integer i) := by
      simp only [ofWhole?, ne_eq, not_true_eq_false, if_false, Bool.not_true, Bool.false_eq_true,
        hr, and_self, if_true, hv]
    simp only [read?, text, hi, if_true, hl, unsigned?_digitChars, Option.bind_eq_bind,
      Option.bind_some, ofLiteral?, absorb_digitChars hn, hw]
  · have hn : i.natAbs < wordLimit := by unfold wordLimit; omega
    have hv : (i.natAbs : Int) = i := by omega
    have hw : ofWhole? false i.natAbs 0 = some (.integer i) := by
      simp only [ofWhole?, ne_eq, not_true_eq_false, if_false, Bool.not_false, if_true, hv]
    simp only [read?, text, hi, if_false, literal?_digitChars, unsigned?_digitChars,
      Option.bind_eq_bind, Option.bind_some, ofLiteral?, absorb_digitChars hn, hw]

end CallSampler.Number
