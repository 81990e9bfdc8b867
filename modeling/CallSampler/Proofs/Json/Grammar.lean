import CallSampler.Proofs.Json.RoundTrip

/-!
# The texts that the reader accepts

A list of tokens is accepted exactly if it is the list of tokens of some document that nests no
deeper than the limit, and what is made of it is that document with its repeated keys settled
(`ofTokens?_eq_some_iff`). One direction is the round trip; the other goes by an invariant that
says which tokens lead to a state of the reader (`Machine.Reached`). It keeps the open frames as the
text gives them, and the frames of the reader are those settled.
-/

namespace CallSampler.Json

/-! ## Documents that are not complete -/

/-- The items of an array up to the comma behind the last of them. -/
def leadingItems (items : List Json) : List Token := items.flatMap fun j => j.tokens ++ [.comma]

/-- The entries of an object up to the comma behind the last of them. -/
def leadingEntries (entries : List (String × Json)) : List Token :=
  entries.flatMap fun e => .string e.1 :: .colon :: (e.2.tokens ++ [.comma])

theorem tokens_array_append_singleton (items : List Json) (j : Json) :
    (Json.array (items ++ [j])).tokens =
      .openArray :: (leadingItems items ++ (j.tokens ++ [.closeArray])) := by
  have hcomma : ∀ rest : List Json, itemTokens false (rest ++ [j]) =
      .comma :: itemTokens true (rest ++ [j]) := by
    intro rest
    cases rest <;> simp [itemTokens]
  have h : itemTokens true (items ++ [j]) = leadingItems items ++ (j.tokens ++ [.closeArray]) := by
    induction items with
    | nil => simp [itemTokens, leadingItems]
    | cons i rest ih =>
      rw [List.cons_append, itemTokens, hcomma, ih]
      simp [leadingItems]
  rw [tokens, h]

theorem tokens_object_append_singleton (entries : List (String × Json)) (e : String × Json) :
    (Json.object (entries ++ [e])).tokens = .openObject ::
      (leadingEntries entries ++ .string e.1 :: .colon :: (e.2.tokens ++ [.closeObject])) := by
  have hcomma : ∀ rest : List (String × Json), entryTokens false (rest ++ [e]) =
      .comma :: entryTokens true (rest ++ [e]) := by
    intro rest
    cases rest <;> simp [entryTokens]
  have h : entryTokens true (entries ++ [e]) =
      leadingEntries entries ++ .string e.1 :: .colon :: (e.2.tokens ++ [.closeObject]) := by
    induction entries with
    | nil => simp [entryTokens, leadingEntries]
    | cons f rest ih =>
      rw [List.cons_append, entryTokens, hcomma, ih]
      simp [leadingEntries]
  rw [tokens, h]

/-- The entries of an object, each settled and repeated keys too. -/
def settle (entries : List (String × Json)) : List (String × Json) :=
  Entries.ofAssignments (entries.map fun e => (e.1, e.2.settled))

@[simp] theorem settle_nil : settle [] = [] := rfl

theorem settle_append_singleton (entries : List (String × Json)) (key : String) (j : Json) :
    settle (entries ++ [(key, j)]) = Entries.set key j.settled (settle entries) := by
  rw [settle, List.map_append, Entries.ofAssignments, List.foldl_append]
  rfl

/-! ## Open frames -/

namespace Frame

/-- The tokens of an open frame up to where its next value starts. -/
def opening : Frame → List Token
  | .array items => .openArray :: leadingItems items.reverse
  | .object entries key => .openObject :: (leadingEntries entries ++ [.string key, .colon])

/-- The frame after its next value. -/
def add (j : Json) : Frame → Frame
  | .array items => .array (j :: items)
  | .object entries key => .object (entries ++ [(key, j)]) key

def settled : Frame → Frame
  | .array items => .array (items.map Json.settled)
  | .object entries key => .object (settle entries) key

/-- What a frame holds fits the room inside it. -/
def Fits (room : Nat) : Frame → Prop
  | .array items => ∀ j ∈ items, j.nesting ≤ room
  | .object entries _ => ∀ e ∈ entries, e.2.nesting ≤ room

theorem Fits.add {room : Nat} {f : Frame} {j : Json} (hf : f.Fits room) (hj : j.nesting ≤ room) :
    (f.add j).Fits room := by
  cases f with
  | array items => exact List.forall_mem_cons.mpr ⟨hj, hf⟩
  | object entries key =>
    intro e he
    rcases List.mem_append.mp he with he | he
    · exact hf e he
    · rw [List.mem_singleton.mp he]
      exact hj

end Frame

/-- The tokens of all open frames, of which the innermost is the first. -/
def opening (frames : List Frame) : List Token := frames.reverse.flatMap Frame.opening

theorem opening_cons (f : Frame) (frames : List Frame) :
    opening (f :: frames) = opening frames ++ f.opening := by
  simp [opening]

/-- What all open frames hold fits, given the room inside the innermost. -/
def FramesFit : Nat → List Frame → Prop
  | _, [] => True
  | room, f :: rest => f.Fits room ∧ FramesFit (room + 1) rest

/-! ## The states of the reader -/

namespace Machine

variable {limit room : Nat} {frames : List Frame} {ts : List Token} {m m' : Machine} {t : Token}

/-- The open frames that a text gives, with the room that they leave. -/
structure Open (limit room : Nat) (frames : List Frame) : Prop where
  fit : FramesFit room frames
  depth : room + frames.length = limit

theorem Open.cons {f : Frame} (h : Open limit (room + 1) frames) (hf : f.Fits room) :
    Open limit room (f :: frames) := by
  refine ⟨⟨hf, h.fit⟩, ?_⟩
  have hdepth := h.depth
  rw [List.length_cons]
  omega

theorem Open.tail {f : Frame} (h : Open limit room (f :: frames)) :
    Open limit (room + 1) frames := by
  refine ⟨h.fit.2, ?_⟩
  have hdepth := h.depth
  rw [List.length_cons] at hdepth
  omega

/-- The tokens that lead a reader with a limit to one of its states. -/
inductive Reached (limit : Nat) : List Token → Machine → Prop
  | value {room : Nat} {frames : List Frame} (h : Open limit room frames) :
    Reached limit (opening frames) { frames := frames.map .settled, room, mode := .value }
  | firstItem {room : Nat} {frames : List Frame} (h : Open limit (room + 1) frames) :
    Reached limit (opening frames ++ [.openArray])
      { frames := .array [] :: frames.map .settled, room, mode := .firstItem }
  | firstKey {room : Nat} {frames : List Frame} (h : Open limit (room + 1) frames) :
    Reached limit (opening frames ++ [.openObject])
      { frames := frames.map .settled, room, mode := .firstKey }
  | key {room : Nat} {frames : List Frame} {entries : List (String × Json)}
    (h : Open limit (room + 1) frames) (he : ∀ e ∈ entries, e.2.nesting ≤ room) :
    Reached limit (opening frames ++ .openObject :: leadingEntries entries)
      { frames := frames.map .settled, room, mode := .key (settle entries) }
  | colon {room : Nat} {frames : List Frame} {entries : List (String × Json)} {key : String}
    (h : Open limit (room + 1) frames) (he : ∀ e ∈ entries, e.2.nesting ≤ room) :
    Reached limit (opening frames ++ .openObject :: (leadingEntries entries ++ [.string key]))
      { frames := frames.map .settled, room, mode := .colon (settle entries) key }
  | separator {room : Nat} {f : Frame} {frames : List Frame} {j : Json}
    (h : Open limit room (f :: frames)) (hj : j.nesting ≤ room) :
    Reached limit (opening (f :: frames) ++ j.tokens)
      { frames := (f.add j).settled :: frames.map .settled, room, mode := .separator }
  | done {j : Json} (hj : j.nesting ≤ limit) :
    Reached limit j.tokens { frames := [], room := limit, mode := .done j.settled }

theorem reached_finish {j : Json} (h : Open limit room frames) (hj : j.nesting ≤ room) :
    Reached limit (opening frames ++ j.tokens)
      (finish j.settled (frames.map .settled) room) := by
  cases frames with
  | nil =>
    obtain rfl : room = limit := h.depth
    exact .done hj
  | cons f rest =>
    cases f with
    | array items => exact .separator h hj
    | object entries key =>
      have hset := settle_append_singleton entries key j
      rw [List.map_cons, Frame.settled, finish, ← hset]
      exact .separator (f := .object entries key) h hj

theorem reached_begin (h : Open limit room frames)
    (hb : begin (frames.map .settled) room t = some m) :
    Reached limit (opening frames ++ [t]) m := by
  cases t with
  | null =>
    cases hb
    exact reached_finish (j := .null) h (Nat.zero_le _)
  | bool b =>
    cases hb
    exact reached_finish (j := .bool b) h (Nat.zero_le _)
  | number n =>
    cases hb
    exact reached_finish (j := .number n) h (Nat.zero_le _)
  | string s =>
    cases hb
    exact reached_finish (j := .string s) h (Nat.zero_le _)
  | openArray =>
    cases room with
    | zero => cases hb
    | succ room =>
      cases hb
      exact .firstItem h
  | openObject =>
    cases room with
    | zero => cases hb
    | succ room =>
      cases hb
      exact .firstKey h
  | closeArray | closeObject | comma | colon => cases hb

/-- An array that closes behind its last item. -/
theorem reached_closeArray {items : List Json} {j : Json}
    (h : Open limit room (.array items :: frames)) (hj : j.nesting ≤ room) :
    Reached limit (opening (.array items :: frames) ++ j.tokens ++ [.closeArray])
      (finish (.array ((j :: items).map settled).reverse) (frames.map .settled) (room + 1)) := by
  have hfits : (Json.array (items.reverse ++ [j])).nesting ≤ room + 1 := by
    rw [nesting_array_le]
    intro k hk
    rcases List.mem_append.mp hk with hk | hk
    · exact h.fit.1 k (List.mem_reverse.mp hk)
    · rw [List.mem_singleton.mp hk]
      exact hj
  have hreached := reached_finish h.tail hfits
  rw [tokens_array_append_singleton, settled_array, ← List.reverse_cons, List.map_reverse]
    at hreached
  simpa [opening_cons, Frame.opening] using hreached

/-- An object that closes behind its last entry. -/
theorem reached_closeObject {entries : List (String × Json)} {key : String} {j : Json}
    (h : Open limit room (.object entries key :: frames)) (hj : j.nesting ≤ room) :
    Reached limit (opening (.object entries key :: frames) ++ j.tokens ++ [.closeObject])
      (finish (.object (settle (entries ++ [(key, j)]))) (frames.map .settled) (room + 1)) := by
  have hfits : (Json.object (entries ++ [(key, j)])).nesting ≤ room + 1 :=
    nesting_object_le.mpr (Frame.Fits.add h.fit.1 hj)
  have hreached := reached_finish h.tail hfits
  rw [tokens_object_append_singleton, settled_object] at hreached
  simpa [opening_cons, Frame.opening, settle] using hreached

/-- One more token leads to the next state. -/
theorem Reached.step (h : Reached limit ts m) (hs : m.step t = some m') :
    Reached limit (ts ++ [t]) m' := by
  cases h with
  | value h => exact reached_begin h hs
  | @firstItem room frames h =>
    simp only [Machine.step, stepFirstItem] at hs
    split at hs
    next =>
      cases hs
      have hreached := reached_finish (j := .array []) h (by simp [nesting, nestingItems])
      simpa [tokens, itemTokens] using hreached
    next =>
      have hopen : Open limit room (.array [] :: frames) := h.cons fun j hj => by cases hj
      have hreached := reached_begin hopen hs
      simpa [opening_cons, Frame.opening, leadingItems] using hreached
  | @firstKey room frames h =>
    simp only [Machine.step, stepFirstKey] at hs
    split at hs
    next =>
      cases hs
      have hreached := reached_finish (j := .object []) h (by simp [nesting, nestingEntries])
      simpa [tokens, entryTokens, settled_object, Entries.ofAssignments] using hreached
    next s =>
      cases hs
      have hreached := @Reached.colon limit room frames [] s h fun e he => by cases he
      simpa [leadingEntries] using hreached
    next => cases hs
  | key h he =>
    simp only [Machine.step, stepKey] at hs
    split at hs
    next s =>
      cases hs
      simpa using @Reached.colon limit _ _ _ s h he
    next => cases hs
  | @colon room frames entries key h he =>
    simp only [Machine.step, stepColon] at hs
    split at hs
    next =>
      cases hs
      have hopen : Open limit room (.object entries key :: frames) := h.cons he
      simpa [opening_cons, Frame.opening, Frame.settled] using Reached.value hopen
    next => cases hs
  | @separator room f frames j h hj =>
    have hadd : Open limit room (f.add j :: frames) := h.tail.cons (h.fit.1.add hj)
    cases f with
    | array items =>
      simp only [Machine.step, stepSeparator, Frame.add, Frame.settled] at hs
      split at hs
      next =>
        cases hs
        have hreached := Reached.value hadd
        simpa [opening_cons, Frame.opening, Frame.add, Frame.settled, leadingItems] using hreached
      next =>
        cases hs
        exact reached_closeArray h hj
      next => cases hs
    | object entries key =>
      simp only [Machine.step, stepSeparator, Frame.add, Frame.settled] at hs
      split at hs
      next =>
        cases hs
        have hreached := Reached.key h.tail hadd.fit.1
        simpa [opening_cons, Frame.opening, leadingEntries] using hreached
      next =>
        cases hs
        exact reached_closeObject h hj
      next => cases hs
  | done hj => cases hs

theorem Reached.run {more : List Token} (h : Reached limit ts m) (hr : m.run more = some m') :
    Reached limit (ts ++ more) m' := by
  induction more generalizing ts m with
  | nil =>
    cases hr
    rwa [List.append_nil]
  | cons t more ih =>
    obtain ⟨m₁, h₁, hr⟩ := Option.bind_eq_some_iff.mp hr
    have hmore := ih (h.step h₁) hr
    rwa [List.append_assoc] at hmore

end Machine

/-- What is accepted are the tokens of the documents within the limit. -/
theorem ofTokens?_eq_some_iff {limit : Nat} {ts : List Token} {j : Json} :
    ofTokens? limit ts = some j ↔
      ∃ given : Json, ts = given.tokens ∧ given.nesting ≤ limit ∧ given.settled = j := by
  constructor
  · intro h
    obtain ⟨m, hm, h⟩ := Option.bind_eq_some_iff.mp h
    have hstart : Machine.Reached limit [] (.start limit) :=
      @Machine.Reached.value limit limit [] ⟨trivial, rfl⟩
    have hreached := hstart.run hm
    rw [List.nil_append] at hreached
    cases hreached with
    | done hj =>
      cases h
      exact ⟨_, rfl, hj, rfl⟩
    | value | firstItem | firstKey | key | colon | separator => cases h
  · rintro ⟨given, rfl, hl, rfl⟩
    exact ofTokens?_tokens_eq hl

end CallSampler.Json
