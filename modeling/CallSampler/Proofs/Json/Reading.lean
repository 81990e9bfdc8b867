import CallSampler.Proofs.Json.WellFormed

/-!
# What the reader makes

Whatever text it is given, the reader makes only well-formed documents that nest no deeper than its
limit (`within_of_ofText?`). The invariant is about the open frames: what a frame holds so far
is well formed and nests no deeper than the room that was left when the frame was opened.
-/

namespace CallSampler

/-! ## Numbers -/

namespace Number

open Decimal

theorem absorb_lt {n : Nat} (h : n < wordLimit) (ds : List Char) :
    (absorb n ds).1 < wordLimit := by
  induction ds generalizing n with
  | nil => exact h
  | cons d ds ih =>
    by_cases hn : 10 * n + digitValue d < wordLimit
    · rw [absorb, if_pos hn]
      exact ih hn
    · rw [absorb, if_neg hn]
      exact h

theorem ofScaled?_ne_integer {negative : Bool} {significand : Nat} {e : Int} {i : Int} :
    ofScaled? negative significand e ≠ some (.integer i) := by
  simp [ofScaled?]

theorem integerFits_of_ofWhole? {negative : Bool} {significand dropped : Nat} {i : Int}
    (hs : significand < wordLimit) (h : ofWhole? negative significand dropped = some (.integer i)) :
    Json.IntegerFits i := by
  unfold ofWhole? at h
  unfold Json.IntegerFits
  split at h
  next => exact absurd h ofScaled?_ne_integer
  split at h
  next =>
    cases h
    omega
  split at h
  next hrange =>
    cases h
    unfold wordLimit
    omega
  next => cases h

theorem ofDecimal?_ne_integer {negative : Bool} {significand : Nat} {start i : Int}
    {exponent : Option (Bool × List Char)} :
    ofDecimal? negative significand start exponent ≠ some (.integer i) := by
  intro h
  unfold ofDecimal? at h
  split at h
  next => exact ofScaled?_ne_integer h
  next down digits =>
    by_cases he : 2147483648 ≤ ofDigits digits
    · rw [if_pos he] at h
      split at h <;> cases h
    · rw [if_neg he] at h
      exact ofScaled?_ne_integer h

/-- An integer that is read fits 64 bits. -/
theorem integerFits_of_read? {cs r : List Char} {i : Int}
    (h : read? cs = some (.integer i, r)) : Json.IntegerFits i := by
  obtain ⟨⟨l, r'⟩, -, h⟩ := Option.bind_eq_some_iff.mp h
  obtain ⟨n, hn, h⟩ := Option.bind_eq_some_iff.mp h
  obtain ⟨rfl, -⟩ := Prod.mk.inj (Option.some.inj h)
  unfold ofLiteral? at hn
  split at hn
  next => exact integerFits_of_ofWhole? (absorb_lt (by decide) _) hn
  next => exact absurd hn ofDecimal?_ne_integer

end Number

namespace Json

/-! ## Tokens -/

/-- An integer token fits 64 bits. -/
def Token.Fits : Token → Prop
  | .number (.integer i) => IntegerFits i
  | _ => True

theorem fits_of_token? {c : Char} {rest r : List Char} {t : Token}
    (h : token? c rest = some (t, r)) : t.Fits := by
  unfold token? at h
  split at h
  case h_11 =>
    obtain ⟨⟨n, r'⟩, hn, h⟩ := Option.map_eq_some_iff.mp h
    obtain ⟨rfl, rfl⟩ := Prod.mk.inj h
    cases n with
    | integer i => exact Number.integerFits_of_read? hn
    | float x => trivial
  case h_10 =>
    obtain ⟨_, -, h⟩ := Option.map_eq_some_iff.mp h
    obtain ⟨rfl, -⟩ := Prod.mk.inj h
    trivial
  case h_7 | h_8 | h_9 =>
    obtain ⟨_, -, h⟩ := Option.map_eq_some_iff.mp h
    obtain ⟨rfl, -⟩ := Prod.mk.inj h
    trivial
  all_goals
    obtain ⟨rfl, -⟩ := Prod.mk.inj (Option.some.inj h)
    trivial

theorem fits_of_lex? {fuel : Nat} {cs : List Char} {ts : List Token} (h : lex? fuel cs = some ts) :
    ∀ t ∈ ts, t.Fits := by
  induction fuel generalizing cs ts with
  | zero =>
    cases cs with
    | nil =>
      cases h
      simp
    | cons c cs => cases h
  | succ fuel ih =>
    cases cs with
    | nil =>
      cases h
      simp
    | cons c cs =>
      unfold lex? at h
      split at h
      next => exact ih h
      next =>
        split at h
        next => cases h
        next t rest ht =>
          obtain ⟨us, hus, rfl⟩ := Option.map_eq_some_iff.mp h
          exact List.forall_mem_cons.mpr ⟨fits_of_token? ht, ih hus⟩

/-! ## Frames -/

/-- A document that can stand where there is so much room. -/
def Within (room : Nat) (j : Json) : Prop := j.WellFormed ∧ j.nesting ≤ room

/-- What stands inside has one level less. -/
theorem Within.parts {j p : Json} {room : Nat} (h : j.Within (room + 1)) (hp : p ∈ j.parts) :
    p.Within room :=
  ⟨Everywhere.parts h.1 p hp, nesting_of_mem_parts h.2 hp⟩

/-- What an object holds so far. -/
def EntriesWithin (room : Nat) (entries : List (String × Json)) : Prop :=
  (Entries.keys entries).Nodup ∧ ∀ e ∈ entries, e.2.Within room

/-- What a frame holds so far, given the room inside it. -/
def Frame.Within (room : Nat) : Frame → Prop
  | .array items => ∀ j ∈ items, j.Within room
  | .object entries _ => EntriesWithin room entries

/-- What all open frames hold so far, given the room inside the innermost. -/
def FramesWithin : Nat → List Frame → Prop
  | _, [] => True
  | room, f :: rest => f.Within room ∧ FramesWithin (room + 1) rest

theorem within_array {items : List Json} {room : Nat} (h : ∀ j ∈ items, j.Within room) :
    (Json.array items).Within (room + 1) :=
  ⟨wellFormed_array.mpr fun j hj => (h j hj).1, nesting_array_le.mpr fun j hj => (h j hj).2⟩

theorem within_object {entries : List (String × Json)} {room : Nat}
    (h : EntriesWithin room entries) : (Json.object entries).Within (room + 1) :=
  ⟨wellFormed_object.mpr ⟨h.1, fun e he => (h.2 e he).1⟩,
    nesting_object_le.mpr fun e he => (h.2 e he).2⟩

theorem EntriesWithin.set {entries : List (String × Json)} {room : Nat} {j : Json}
    (h : EntriesWithin room entries) (key : String) (hj : j.Within room) :
    EntriesWithin room (Entries.set key j entries) := by
  refine ⟨Entries.nodup_keys_put h.1, fun e he => ?_⟩
  rcases Entries.mem_put he with hv | he
  · exact hv ▸ hj
  · exact h.2 e he

namespace Machine

/-- The invariant of the reader: what it holds so far is well formed and fits the room, and every
open frame takes up one level of the limit. The object whose key is being read is not among the
frames. -/
def Sound (limit : Nat) (m : Machine) : Prop :=
  match m.mode with
  | .value | .firstItem | .separator =>
    FramesWithin m.room m.frames ∧ m.room + m.frames.length = limit
  | .firstKey =>
    FramesWithin (m.room + 1) m.frames ∧ m.room + 1 + m.frames.length = limit
  | .key entries | .colon entries _ =>
    EntriesWithin m.room entries ∧ FramesWithin (m.room + 1) m.frames ∧
      m.room + 1 + m.frames.length = limit
  | .done j => j.Within limit

variable {limit room : Nat} {frames : List Frame} {m m' : Machine} {t : Token} {j : Json}

theorem sound_finish (hj : j.Within room) (hf : FramesWithin room frames)
    (hl : room + frames.length = limit) : (finish j frames room).Sound limit := by
  cases frames with
  | nil =>
    obtain rfl : room = limit := hl
    exact hj
  | cons f rest =>
    obtain ⟨hfirst, hrest⟩ := hf
    cases f with
    | array items => exact ⟨⟨List.forall_mem_cons.mpr ⟨hj, hfirst⟩, hrest⟩, hl⟩
    | object entries key => exact ⟨⟨EntriesWithin.set hfirst key hj, hrest⟩, hl⟩

theorem sound_begin (ht : t.Fits) (hf : FramesWithin room frames)
    (hl : room + frames.length = limit) (h : begin frames room t = some m) : m.Sound limit := by
  cases t with
  | null =>
    cases h
    exact sound_finish ⟨wellFormed_null, Nat.zero_le _⟩ hf hl
  | bool b =>
    cases h
    exact sound_finish ⟨wellFormed_bool b, Nat.zero_le _⟩ hf hl
  | number n =>
    cases h
    refine sound_finish ⟨?_, Nat.zero_le _⟩ hf hl
    cases n with
    | integer i => exact wellFormed_integer.mpr ht
    | float x => exact wellFormed_float x
  | string s =>
    cases h
    exact sound_finish ⟨wellFormed_string s, Nat.zero_le _⟩ hf hl
  | openArray =>
    cases room with
    | zero => cases h
    | succ room =>
      cases h
      refine ⟨⟨(fun j hj => by cases hj), hf⟩, ?_⟩
      simp only [List.length_cons]
      omega
  | openObject =>
    cases room with
    | zero => cases h
    | succ room =>
      cases h
      exact ⟨hf, hl⟩
  | closeArray => cases h
  | closeObject => cases h
  | comma => cases h
  | colon => cases h

/-- One step keeps the invariant. -/
theorem sound_step (ht : t.Fits) (hm : m.Sound limit) (h : m.step t = some m') :
    m'.Sound limit := by
  obtain ⟨frames, room, mode⟩ := m
  cases mode with
  | value => exact sound_begin ht hm.1 hm.2 h
  | firstItem =>
    obtain ⟨hf, hl⟩ := hm
    simp only [step, stepFirstItem] at h
    split at h
    next =>
      split at h
      next items rest =>
        cases h
        simp only [List.length_cons] at hl
        exact sound_finish (within_array fun j hj => by cases hj) hf.2 (by omega)
      next => cases h
    next => exact sound_begin ht hf hl h
  | firstKey =>
    obtain ⟨hf, hl⟩ := hm
    simp only [step, stepFirstKey] at h
    split at h
    next =>
      cases h
      exact sound_finish (within_object ⟨.nil, fun e he => by cases he⟩) hf hl
    next =>
      cases h
      exact ⟨⟨.nil, fun e he => by cases he⟩, hf, hl⟩
    next => cases h
  | key entries =>
    simp only [step, stepKey] at h
    split at h
    next =>
      cases h
      exact hm
    next => cases h
  | colon entries key =>
    obtain ⟨he, hf, hl⟩ := hm
    simp only [step, stepColon] at h
    split at h
    next =>
      cases h
      refine ⟨⟨he, hf⟩, ?_⟩
      simp only [List.length_cons] at hl ⊢
      omega
    next => cases h
  | separator =>
    obtain ⟨hf, hl⟩ := hm
    simp only [step, stepSeparator] at h
    split at h
    next => cases h
    next items rest =>
      simp only [List.length_cons] at hl
      split at h
      next =>
        cases h
        exact ⟨hf, hl⟩
      next =>
        cases h
        exact sound_finish
          (within_array fun j hj => hf.1 j (List.mem_reverse.mp hj)) hf.2 (by omega)
      next => cases h
    next entries key rest =>
      simp only [List.length_cons] at hl
      split at h
      next =>
        cases h
        exact ⟨hf.1, hf.2, by simp only; omega⟩
      next =>
        cases h
        exact sound_finish (within_object hf.1) hf.2 (by omega)
      next => cases h
  | done j => cases h

theorem sound_run {ts : List Token} (ht : ∀ t ∈ ts, t.Fits) (hm : m.Sound limit)
    (h : m.run ts = some m') : m'.Sound limit := by
  induction ts generalizing m with
  | nil =>
    cases h
    exact hm
  | cons t ts ih =>
    obtain ⟨hfirst, hrest⟩ := List.forall_mem_cons.mp ht
    obtain ⟨m₁, h₁, h⟩ := Option.bind_eq_some_iff.mp h
    exact ih hrest (sound_step hfirst hm h₁) h

end Machine

/-- A document that is read is well formed and nests no deeper than the limit. -/
theorem within_of_ofText? {limit : Nat} {text : String} {j : Json}
    (h : ofText? limit text = some j) : j.Within limit := by
  obtain ⟨ts, hts, h⟩ := Option.bind_eq_some_iff.mp h
  obtain ⟨m, hm, h⟩ := Option.bind_eq_some_iff.mp h
  have hstart : (Machine.start limit).Sound limit := ⟨trivial, rfl⟩
  have hsound := Machine.sound_run (fits_of_lex? hts) hstart hm
  unfold Machine.Sound at hsound
  split at h
  next k hk =>
    cases h
    rw [hk] at hsound
    exact hsound
  next => cases h

end Json

end CallSampler
