import CallSampler.Entries

/-!
# The order of names

Names compare by code points, and files, listings and tables have them in the order of their UTF-8
bytes. It is the same order (`utf8_lt_utf8`): a code point has at most as many bytes as a greater
one, more bytes begin with a greater one, and where there are equally many, each of them holds a
digit of the code point, the highest first.
-/

namespace CallSampler

/-- The bytes of a text. -/
def utf8 (s : String) : List UInt8 := s.toList.flatMap String.utf8EncodeChar

/-- A code point in bytes, the first of which tells how many there are. -/
inductive Spelt (n : Nat) : List UInt8 → Prop where
  | one (h : n < 0x80) : Spelt n [.ofNat n]
  | two (h : 0x80 ≤ n) (h' : n < 0x800) : Spelt n [.ofNat (n / 64 + 0xc0), .ofNat (n % 64 + 0x80)]
  | three (h : 0x800 ≤ n) (h' : n < 0x10000) :
    Spelt n [.ofNat (n / 64 / 64 + 0xe0), .ofNat (n / 64 % 64 + 0x80), .ofNat (n % 64 + 0x80)]
  | four (h : 0x10000 ≤ n) (h' : n < 0x110000) :
    Spelt n [.ofNat (n / 64 / 64 / 64 + 0xf0), .ofNat (n / 64 / 64 % 64 + 0x80),
      .ofNat (n / 64 % 64 + 0x80), .ofNat (n % 64 + 0x80)]

theorem spelt_utf8EncodeChar (c : Char) : Spelt c.val.toNat (String.utf8EncodeChar c) := by
  have hc : c.val.toNat < 0x110000 := by
    rcases c.valid with h | h <;> omega
  unfold String.utf8EncodeChar
  dsimp only
  split
  next h => exact .one (by omega)
  next =>
    split
    next =>
      have hlead : c.val.toNat / 64 % 0x20 = c.val.toNat / 64 := by omega
      rw [hlead]
      exact .two (by omega) (by omega)
    next =>
      split
      next =>
        have hlead : c.val.toNat / 4096 % 0x10 = c.val.toNat / 64 / 64 := by omega
        rw [hlead]
        exact .three (by omega) (by omega)
      next =>
        have hlead : c.val.toNat / 262144 % 0x08 = c.val.toNat / 64 / 64 / 64 := by omega
        have hsecond : c.val.toNat / 4096 = c.val.toNat / 64 / 64 := by omega
        rw [hlead, hsecond]
        exact .four (by omega) hc

section Bytes

variable {a b : Nat} {x y : List UInt8}

theorem cons_lt_cons_of_lt (h : a < b) (hb : b < 256) :
    UInt8.ofNat a :: x < UInt8.ofNat b :: y := by
  have ha : a < 256 := by omega
  refine List.cons_lt_cons_iff.mpr (.inl ?_)
  rw [UInt8.lt_iff_toNat_lt, UInt8.toNat_ofNat_of_lt' ha, UInt8.toNat_ofNat_of_lt' hb]
  exact h

/-- The lowest digit decides where the others agree. -/
theorem div_lt_or_mod_lt (h : a < b) :
    a / 64 < b / 64 ∨ a / 64 = b / 64 ∧ a % 64 < b % 64 := by
  omega

theorem spelt_append_lt {as bs : List UInt8} (h : a < b) (ha : Spelt a as) (hb : Spelt b bs) :
    as ++ x < bs ++ y := by
  cases ha <;> cases hb
  case two.two =>
    rcases div_lt_or_mod_lt h with h | ⟨he, h⟩
    · exact cons_lt_cons_of_lt (by omega) (by omega)
    · rw [he]
      exact List.cons_lt_cons_self.mpr (cons_lt_cons_of_lt (by omega) (by omega))
  case three.three =>
    rcases div_lt_or_mod_lt h with h | ⟨he, h⟩
    · rcases div_lt_or_mod_lt h with h | ⟨he, h⟩
      · exact cons_lt_cons_of_lt (by omega) (by omega)
      · rw [he]
        exact List.cons_lt_cons_self.mpr (cons_lt_cons_of_lt (by omega) (by omega))
    · rw [he]
      exact List.cons_lt_cons_self.mpr
        (List.cons_lt_cons_self.mpr (cons_lt_cons_of_lt (by omega) (by omega)))
  case four.four =>
    rcases div_lt_or_mod_lt h with h | ⟨he, h⟩
    · rcases div_lt_or_mod_lt h with h | ⟨he, h⟩
      · rcases div_lt_or_mod_lt h with h | ⟨he, h⟩
        · exact cons_lt_cons_of_lt (by omega) (by omega)
        · rw [he]
          exact List.cons_lt_cons_self.mpr (cons_lt_cons_of_lt (by omega) (by omega))
      · rw [he]
        exact List.cons_lt_cons_self.mpr
          (List.cons_lt_cons_self.mpr (cons_lt_cons_of_lt (by omega) (by omega)))
    · rw [he]
      exact List.cons_lt_cons_self.mpr (List.cons_lt_cons_self.mpr
        (List.cons_lt_cons_self.mpr (cons_lt_cons_of_lt (by omega) (by omega))))
  all_goals exact cons_lt_cons_of_lt (by omega) (by omega)

end Bytes

theorem flatMap_utf8EncodeChar_lt {as bs : List Char} (h : as < bs) :
    as.flatMap String.utf8EncodeChar < bs.flatMap String.utf8EncodeChar := by
  induction as generalizing bs with
  | nil =>
    cases bs with
    | nil => exact absurd h (List.lt_irrefl _)
    | cons b bs =>
      have hne : String.utf8EncodeChar b ≠ [] := String.utf8EncodeChar_ne_nil
      rw [List.flatMap_nil, List.flatMap_cons]
      cases hb : String.utf8EncodeChar b with
      | nil => exact absurd hb hne
      | cons c cs => exact List.nil_lt_cons _ _
  | cons a as ih =>
    cases bs with
    | nil => exact absurd h (List.not_lt_nil _)
    | cons b bs =>
      rw [List.flatMap_cons, List.flatMap_cons]
      rcases List.cons_lt_cons_iff.mp h with hlt | ⟨rfl, hlt⟩
      · exact spelt_append_lt hlt (spelt_utf8EncodeChar a) (spelt_utf8EncodeChar b)
      · exact List.append_left_lt (ih hlt)

/-- Names ascend as their bytes do. -/
theorem utf8_lt_utf8 {s t : String} (h : s < t) : utf8 s < utf8 t := flatMap_utf8EncodeChar_lt h

end CallSampler
