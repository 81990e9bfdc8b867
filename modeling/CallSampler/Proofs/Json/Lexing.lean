import CallSampler.Proofs.Json.NumberText
import CallSampler.Proofs.Json.Rereading

/-!
# The tokens of a printed document

`Json.tokens` lists the tokens of a document, which both printed forms share. A text *spells* tokens
when the lexer finds them in front of whatever follows it (`Spells`); spelling composes, so the
pretty form of a document spells the tokens of the document that is read from it because each of its
pieces does (`spells_pretty`).
-/

namespace CallSampler.Json

/-! ## The tokens of a document -/

mutual

/-- The tokens of a document. -/
def tokens : Json → List Token
  | .null => [.null]
  | .bool b => [.bool b]
  | .number n => [.number n]
  | .string s => [.string s]
  | .array items => .openArray :: itemTokens true items
  | .object entries => .openObject :: entryTokens true entries

/-- The tokens of the items of an array up to its end. -/
def itemTokens (first : Bool) : List Json → List Token
  | [] => [.closeArray]
  | item :: rest => (if first then [] else [.comma]) ++ item.tokens ++ itemTokens false rest

/-- The tokens of the entries of an object up to its end. -/
def entryTokens (first : Bool) : List (String × Json) → List Token
  | [] => [.closeObject]
  | (key, value) :: rest =>
    (if first then [] else [.comma]) ++ .string key :: .colon :: value.tokens ++
      entryTokens false rest

end

/-! ## Strings -/

theorem fourHex?_hexDigit : ∀ n < 32, fourHex? '0' '0' (hexDigit (n / 16)) (hexDigit (n % 16)) =
    some n := by
  decide

/-- An escaped character reads back. -/
theorem readString?_escape (c : Char) (rest : List Char) :
    readString? (escape c ++ rest) = (readString? rest).map fun (cs, r) => (c :: cs, r) := by
  unfold escape
  split
  next h => subst h; simp [readString?, escaped?]
  split
  next h => subst h; simp [readString?, escaped?]
  split
  next h => subst h; simp [readString?, escaped?]
  split
  next h => subst h; simp [readString?, escaped?]
  split
  next h => subst h; simp [readString?, escaped?]
  split
  next h => subst h; simp [readString?, escaped?]
  split
  next h => subst h; simp [readString?, escaped?]
  split
  next hlow =>
    have hx := fourHex?_hexDigit c.toNat hlow
    have hs : ¬ (0xD800 ≤ c.toNat ∧ c.toNat < 0xE000) := by omega
    simp [readString?, hx, hs]
  next hquote hslash _ _ _ _ _ hlow =>
    have hc : ¬ (c.toNat < 0x20 ∨ c = '\\') := fun h => h.elim hlow hslash
    rw [List.singleton_append, readString?, if_neg hc]
    all_goals simp_all

/-- A string reads back from what follows its opening quote. -/
theorem readString?_flatMap_escape (cs rest : List Char) :
    readString? (cs.flatMap escape ++ '"' :: rest) = some (cs, rest) := by
  induction cs with
  | nil => rfl
  | cons c cs ih =>
    rw [List.flatMap_cons, List.append_assoc, readString?_escape, ih]
    rfl

/-! ## Spelling -/

/-- The lexer finds the tokens in front of every text that continues no number. -/
def Spells (cs : List Char) (ts : List Token) : Prop :=
  ∀ rest fuel, Number.Ends rest → (cs ++ rest).length ≤ fuel →
    ∃ fuel', rest.length ≤ fuel' ∧ lex? fuel (cs ++ rest) = (lex? fuel' rest).map (ts ++ ·)

theorem Spells.nil : Spells [] [] := by
  intro rest fuel _ hf
  exact ⟨fuel, hf, by simp⟩

/-- Pieces that continue no number of the piece before spell their tokens together. -/
theorem Spells.append {cs cs' : List Char} {ts ts' : List Token} (h : Spells cs ts)
    (h' : Spells cs' ts') (he : Number.Ends cs') : Spells (cs ++ cs') (ts ++ ts') := by
  intro rest fuel hrest hf
  rw [List.append_assoc] at hf ⊢
  obtain ⟨fuel₁, hf₁, h₁⟩ := h (cs' ++ rest) fuel (Number.ends_append he hrest) hf
  obtain ⟨fuel₂, hf₂, h₂⟩ := h' rest fuel₁ hrest hf₁
  refine ⟨fuel₂, hf₂, ?_⟩
  rw [h₁, h₂, Option.map_map]
  congr 1
  funext ts''
  simp

theorem Spells.blank {c : Char} {cs : List Char} {ts : List Token} (hc : isBlank c)
    (h : Spells cs ts) : Spells (c :: cs) ts := by
  intro rest fuel hrest hf
  cases fuel with
  | zero => cases hf
  | succ fuel =>
    obtain ⟨fuel', hf', h'⟩ := h rest fuel hrest (Nat.le_of_succ_le_succ hf)
    exact ⟨fuel', hf', by simpa [lex?, hc] using h'⟩

/-- A text whose first character starts a token that takes up all of it. -/
theorem Spells.token {c : Char} {cs : List Char} {t : Token} (hc : isBlank c = false)
    (h : ∀ rest, Number.Ends rest → token? c (cs ++ rest) = some (t, rest)) :
    Spells (c :: cs) [t] := by
  intro rest fuel hrest hf
  cases fuel with
  | zero => cases hf
  | succ fuel =>
    refine ⟨fuel, ?_, ?_⟩
    · simp only [List.cons_append, List.length_cons, List.length_append] at hf
      omega
    · simp [lex?, hc, h rest hrest]

/-! ## Scalars -/

theorem spells_null : Spells ['n', 'u', 'l', 'l'] [.null] :=
  .token rfl fun _ _ => rfl

theorem spells_true : Spells ['t', 'r', 'u', 'e'] [.bool true] :=
  .token rfl fun _ _ => rfl

theorem spells_false : Spells ['f', 'a', 'l', 's', 'e'] [.bool false] :=
  .token rfl fun _ _ => rfl

theorem spells_quoted (s : String) : Spells (quoted s) [.string s] := by
  have hq : quoted s = '"' :: (s.toList.flatMap escape ++ ['"']) := rfl
  rw [hq]
  refine .token rfl fun rest _ => ?_
  simp [token?, readString?_flatMap_escape]

/-- A number starts with a digit or a minus sign. -/
theorem head_of_read? {c : Char} {cs r : List Char} {n : Number}
    (h : Number.read? (c :: cs) = some (n, r)) : c.isDigit ∨ c = '-' := by
  by_cases hm : c = '-'
  · exact Or.inr hm
  · by_cases hd : c.isDigit
    · exact Or.inl hd
    · simp [Number.read?, Number.literal?_cons hm, Number.unsigned?, Number.wholeDigits?,
        Decimal.spanDigits, hd] at h

theorem token?_number {c : Char} (h : c.isDigit ∨ c = '-') (rest : List Char) :
    token? c rest = (Number.read? (c :: rest)).map fun (n, r) => (.number n, r) := by
  unfold token?
  split <;> simp_all

theorem isBlank_eq_false {c : Char} (h : c.isDigit ∨ c = '-') : isBlank c = false := by
  cases hblank : isBlank c with
  | false => rfl
  | true =>
    simp only [isBlank, Bool.or_eq_true, decide_eq_true_eq] at hblank
    rcases hblank with ((rfl | rfl) | rfl) | rfl <;> revert h <;> decide

/-- The text of a number spells the number that is read from it. -/
theorem spells_number {n m : Number} (h : Number.read? n.text = some (m, [])) :
    Spells n.text [.number m] := by
  cases ht : n.text with
  | nil =>
    rw [ht] at h
    cases h
  | cons c cs =>
    rw [ht] at h
    have hc := head_of_read? h
    refine .token (isBlank_eq_false hc) fun rest he => ?_
    rw [token?_number hc, ← List.cons_append, Number.read?_append h he]
    rfl

/-! ## The pretty form -/

/-- A line break and indentation count for nothing. -/
theorem Spells.newline {cs : List Char} {ts : List Token} (level : Nat) (h : Spells cs ts) :
    Spells (newline level ++ cs) ts := by
  have spaces : ∀ n, Spells (List.replicate n ' ' ++ cs) ts := by
    intro n
    induction n with
    | zero => exact h
    | succ n ih => exact .blank rfl ih
  exact .blank rfl (spaces _)

theorem ends_prettyItems (level : Nat) (first : Bool) (items : List Json) :
    Number.Ends (prettyItems level first items) := by
  cases items <;> cases first <;> exact Number.ends_cons (by decide)

theorem ends_prettyEntries (level : Nat) (first : Bool) (entries : List (String × Json)) :
    Number.Ends (prettyEntries level first entries) := by
  cases entries <;> cases first <;> exact Number.ends_cons (by decide)

/-- The comma in front of all items and entries but the first. -/
theorem Spells.comma {cs : List Char} {ts : List Token} (first : Bool) (h : Spells cs ts)
    (he : Number.Ends cs) :
    Spells ((if first then [] else [',']) ++ cs) ((if first then [] else [.comma]) ++ ts) := by
  cases first with
  | true => exact h
  | false => exact (Spells.token rfl fun _ _ => rfl : Spells [','] [.comma]).append h he

theorem spells_prettyItems {items : List Json} (level : Nat)
    (h : ∀ j ∈ items, Spells (j.prettyChars (level + 1)) j.reread.tokens) (first : Bool) :
    Spells (prettyItems level first items) (itemTokens first (items.map reread)) := by
  induction items generalizing first with
  | nil => exact (Spells.token rfl fun _ _ => rfl : Spells [']'] [.closeArray]).newline level
  | cons j rest ih =>
    obtain ⟨hj, hrest⟩ := List.forall_mem_cons.mp h
    have htail := hj.append (ih hrest false) (ends_prettyItems level false rest)
    simp only [prettyItems, List.map_cons, itemTokens, List.append_assoc]
    exact (htail.newline (level + 1)).comma first (Number.ends_cons (by decide))

theorem spells_prettyEntries {entries : List (String × Json)} (level : Nat)
    (h : ∀ e ∈ entries, Spells (e.2.prettyChars (level + 1)) e.2.reread.tokens) (first : Bool) :
    Spells (prettyEntries level first entries)
      (entryTokens first (entries.map fun e => (e.1, e.2.reread))) := by
  induction entries generalizing first with
  | nil =>
    exact (Spells.token rfl fun _ _ => rfl : Spells ['\x7d'] [.closeObject]).newline level
  | cons e rest ih =>
    obtain ⟨he, hrest⟩ := List.forall_mem_cons.mp h
    have hvalue := he.append (ih hrest false) (ends_prettyEntries level false rest)
    have hcolon := (Spells.token rfl fun _ _ => rfl : Spells [':'] [.colon]).append
      (hvalue.blank (c := ' ') rfl) (Number.ends_cons (by decide))
    have hkey := (spells_quoted e.1).append hcolon (Number.ends_cons (by decide))
    simp only [prettyEntries, List.map_cons, entryTokens, List.append_assoc]
    exact (hkey.newline (level + 1)).comma first (Number.ends_cons (by decide))

/-- The pretty form of a document spells the tokens of what is read from it. -/
theorem spells_pretty {j : Json} (hw : j.WellFormed) (hl : j.Legible) (level : Nat) :
    Spells (j.prettyChars level) j.reread.tokens := by
  induction j using induct generalizing level with
  | null => exact spells_null
  | bool b =>
    cases b with
    | true => exact spells_true
    | false => exact spells_false
  | number n =>
    cases n with
    | integer i => exact spells_number (Number.read?_text_integer (wellFormed_integer.mp hw))
    | float x =>
      obtain ⟨n, hn⟩ := hl
      rw [reread, Number.reread_of_read? hn]
      exact spells_number hn
  | string s => exact spells_quoted s
  | array items ih =>
    rw [wellFormed_array] at hw
    rw [legible_array] at hl
    have hopen : Spells ['['] [.openArray] := .token rfl fun _ _ => rfl
    have hitems := spells_prettyItems level fun j hj => ih j hj (hw j hj) (hl j hj) (level + 1)
    rw [reread_array]
    cases items with
    | nil => exact hopen.append (.token rfl fun _ _ => rfl) (Number.ends_cons (by decide))
    | cons j rest => exact hopen.append (hitems true) (ends_prettyItems level true (j :: rest))
  | object entries ih =>
    rw [wellFormed_object] at hw
    rw [legible_object] at hl
    have hopen : Spells ['\x7b'] [.openObject] := .token rfl fun _ _ => rfl
    have hentries := spells_prettyEntries level
      fun e he => ih e he (hw.2 e he) (hl e he) (level + 1)
    rw [reread_object]
    cases entries with
    | nil => exact hopen.append (.token rfl fun _ _ => rfl) (Number.ends_cons (by decide))
    | cons e rest => exact hopen.append (hentries true) (ends_prettyEntries level true (e :: rest))

/-- The lexer finds in the pretty text of a document the tokens of what is read from it, and no
others. -/
theorem tokens?_pretty {j : Json} (hw : j.WellFormed) (hl : j.Legible) :
    tokens? (j.prettyChars 0) = some j.reread.tokens := by
  obtain ⟨fuel, -, h⟩ := spells_pretty hw hl 0 [] (j.prettyChars 0).length Number.ends_nil
    (by simp)
  simpa [tokens?, lex?] using h

end CallSampler.Json
