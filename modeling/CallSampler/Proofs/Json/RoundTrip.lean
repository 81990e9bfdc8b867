import CallSampler.Proofs.Json.Lexing
import CallSampler.Proofs.Json.Settling

/-!
# Reading what was written

From any state in which a value may come, the tokens of a document lead the reader to the state in
which that value is complete and settled, provided that the document nests no deeper than there is
room (`run_tokens`). With the tokens found in the pretty text this gives the round trip: a
well-formed document whose floats read back is read unchanged from its pretty text
(`ofText?_pretty`).
-/

namespace CallSampler.Json

namespace Machine

/-- No value starts with the end of an array. -/
theorem run_firstItem (items : List Json) (frames : List Frame) (room : Nat) (j : Json)
    (ts : List Token) :
    run { frames := .array items :: frames, room, mode := .firstItem } (j.tokens ++ ts) =
      run { frames := .array items :: frames, room, mode := .value } (j.tokens ++ ts) := by
  cases j <;> rfl

section Parts

variable {frames : List Frame} {room : Nat} {ts : List Token}

/-- The rest of an array, given that each item is read. -/
theorem run_itemTokens {items : List Json}
    (h : ∀ j ∈ items, ∀ frames ts, run { frames, room, mode := .value } (j.tokens ++ ts) =
      run (finish j.settled frames room) ts) (acc : List Json) :
    run { frames := .array acc :: frames, room, mode := .separator }
        (itemTokens false items ++ ts) =
      run (finish (.array (acc.reverse ++ items.map settled)) frames (room + 1)) ts := by
  induction items generalizing acc with
  | nil =>
    rw [List.map_nil, List.append_nil]
    rfl
  | cons j rest ih =>
    obtain ⟨hj, hrest⟩ := List.forall_mem_cons.mp h
    have hcomma : itemTokens false (j :: rest) ++ ts =
        .comma :: (j.tokens ++ (itemTokens false rest ++ ts)) := by
      simp [itemTokens]
    have hstep : run { frames := .array acc :: frames, room, mode := .separator }
        (.comma :: (j.tokens ++ (itemTokens false rest ++ ts))) =
      run { frames := .array acc :: frames, room, mode := .value }
        (j.tokens ++ (itemTokens false rest ++ ts)) := rfl
    rw [hcomma, hstep, hj, finish, ih hrest]
    simp

/-- The rest of an object, given that each value is read: each entry is put among those before. -/
theorem run_entryTokens {entries : List (String × Json)}
    (h : ∀ e ∈ entries, ∀ frames ts, run { frames, room, mode := .value } (e.2.tokens ++ ts) =
      run (finish e.2.settled frames room) ts) (acc : List (String × Json)) (last : String) :
    run { frames := .object acc last :: frames, room, mode := .separator }
        (entryTokens false entries ++ ts) =
      run (finish (.object (entries.foldl (fun acc e => Entries.set e.1 e.2.settled acc) acc))
        frames (room + 1)) ts := by
  induction entries generalizing acc last with
  | nil => rfl
  | cons e rest ih =>
    obtain ⟨he, hrest⟩ := List.forall_mem_cons.mp h
    have hcomma : entryTokens false (e :: rest) ++ ts =
        .comma :: .string e.1 :: .colon :: (e.2.tokens ++ (entryTokens false rest ++ ts)) := by
      simp [entryTokens]
    have hstep : run { frames := .object acc last :: frames, room, mode := .separator }
        (.comma :: .string e.1 :: .colon :: (e.2.tokens ++ (entryTokens false rest ++ ts))) =
      run { frames := .object acc e.1 :: frames, room, mode := .value }
        (e.2.tokens ++ (entryTokens false rest ++ ts)) := rfl
    rw [hcomma, hstep, he, finish, ih hrest, List.foldl_cons]

end Parts

/-- The tokens of a document lead from where a value may come to where it is complete. -/
theorem run_tokens {j : Json} {room : Nat} (hr : j.nesting ≤ room) (frames : List Frame)
    (ts : List Token) :
    run { frames, room, mode := .value } (j.tokens ++ ts) =
      run (finish j.settled frames room) ts := by
  induction j using induct generalizing room frames ts with
  | null => rfl
  | bool b => rfl
  | number n => rfl
  | string s => rfl
  | array items ih =>
    cases room with
    | zero => simp [nesting] at hr
    | succ room =>
      rw [nesting_array_le] at hr
      have hitem : ∀ j ∈ items, ∀ frames ts,
          run { frames, room, mode := .value } (j.tokens ++ ts) =
            run (finish j.settled frames room) ts :=
        fun j hj => ih j hj (hr j hj)
      cases items with
      | nil => rfl
      | cons j rest =>
        obtain ⟨hj, hrest⟩ := List.forall_mem_cons.mp hitem
        have htokens : (Json.array (j :: rest)).tokens ++ ts =
            .openArray :: (j.tokens ++ (itemTokens false rest ++ ts)) := by
          simp [tokens, itemTokens]
        have hstep : run { frames, room := room + 1, mode := .value }
            (.openArray :: (j.tokens ++ (itemTokens false rest ++ ts))) =
          run { frames := .array [] :: frames, room, mode := .firstItem }
            (j.tokens ++ (itemTokens false rest ++ ts)) := rfl
        rw [htokens, hstep, run_firstItem, hj, finish, run_itemTokens hrest, settled_array]
        rfl
  | object entries ih =>
    cases room with
    | zero => simp [nesting] at hr
    | succ room =>
      rw [nesting_object_le] at hr
      have hvalue : ∀ e ∈ entries, ∀ frames ts,
          run { frames, room, mode := .value } (e.2.tokens ++ ts) =
            run (finish e.2.settled frames room) ts :=
        fun e he => ih e he (hr e he)
      cases entries with
      | nil => rfl
      | cons e rest =>
        obtain ⟨he, hrest⟩ := List.forall_mem_cons.mp hvalue
        have htokens : (Json.object (e :: rest)).tokens ++ ts = .openObject :: .string e.1 ::
            .colon :: (e.2.tokens ++ (entryTokens false rest ++ ts)) := by
          simp [tokens, entryTokens]
        have hstep : run { frames, room := room + 1, mode := .value }
            (.openObject :: .string e.1 :: .colon ::
              (e.2.tokens ++ (entryTokens false rest ++ ts))) =
          run { frames := .object [] e.1 :: frames, room, mode := .value }
            (e.2.tokens ++ (entryTokens false rest ++ ts)) := rfl
        rw [htokens, hstep, he, finish, run_entryTokens hrest, settled_object,
          Entries.ofAssignments, List.foldl_map]
        rfl

end Machine

/-- The tokens of a document make the document with its repeated keys settled. -/
theorem ofTokens?_tokens_eq {j : Json} {limit : Nat} (hl : j.nesting ≤ limit) :
    ofTokens? limit j.tokens = some j.settled := by
  have h := Machine.run_tokens hl [] []
  rw [List.append_nil] at h
  rw [ofTokens?, Machine.start, h]
  rfl

/-- The tokens of a well-formed document make that document. -/
theorem ofTokens?_tokens {j : Json} (hw : j.WellFormed) {limit : Nat} (hl : j.nesting ≤ limit) :
    ofTokens? limit j.tokens = some j := by
  rw [ofTokens?_tokens_eq hl, settled_of_wellFormed hw]

theorem ofText?_pretty_of_legible {j : Json} (hw : j.WellFormed) (hl : j.Legible) (limit : Nat) :
    ofText? limit j.pretty = ofTokens? limit j.reread.tokens := by
  rw [ofText?, pretty, String.toList_ofList, tokens?_pretty hw hl]
  rfl

/-- A well-formed document whose floats read back is read unchanged from its pretty text, unless
that nests too deep. -/
theorem ofText?_pretty {j : Json} (hw : j.WellFormed) (hf : j.FloatsReadBack) {limit : Nat}
    (hl : j.nesting ≤ limit) : ofText? limit j.pretty = some j := by
  rw [ofText?_pretty_of_legible hw hf.legible, reread_of_floatsReadBack hf]
  exact ofTokens?_tokens hw hl

end CallSampler.Json
