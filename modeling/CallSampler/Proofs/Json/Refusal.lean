import CallSampler.Proofs.Json.Limit

/-!
# Documents that are refused

Nothing is known of what a float is read as from its text, not even that it is read at all: the
number could come out too great for a double. But its text is that of a single literal
(`laid_finite`), so it is read as a whole or not at all, whatever ends it (`takes_text_float`). A
document with a float that is not read is therefore refused as a whole, and of what was written
exactly the documents whose floats are all read, and which do not nest too deep, are read again
(`ofText?_pretty_eq_some_iff`).
-/

namespace CallSampler

/-! ## The texts of floats -/

namespace Number

open Decimal

variable {ds more cs : List Char}

/-- A list of digits. -/
abbrev Digits (ds : List Char) : Prop := ∀ c ∈ ds, c.isDigit

/-- A point and digits, or neither. -/
inductive Point : List Char → Prop where
  | absent : Point []
  | present (ds : List Char) (h : Digits ds) : Point ('.' :: ds)

/-- An exponent with a sign or without one, or nothing. -/
inductive Exponent : List Char → Prop where
  | absent : Exponent []
  | present (sign ds : List Char) (hsign : sign = [] ∨ sign = ['-'] ∨ sign = ['+'])
    (h : Digits ds) (hne : ds ≠ []) : Exponent ('e' :: (sign ++ ds))

/-- The parts that the digits of a double are laid out in. -/
inductive Laid : List Char → Prop where
  | parts (whole point exponent : List Char) (hwhole : Digits whole) (hne : whole ≠ [])
    (hpoint : Point point) (hexponent : Exponent exponent) :
    Laid (whole ++ (point ++ exponent))

/-- A reader takes up a text as a whole, or nothing at all, whatever follows of a kind. -/
def Takes {α : Type} (follows : List Char → Prop) (read : List Char → Option (α × List Char))
    (cs : List Char) : Prop :=
  ∃ a? : Option α, ∀ rest, follows rest → read (cs ++ rest) = a?.map fun a => (a, rest)

/-- What may follow the whole digits of a literal. -/
def EndsDigits (rest : List Char) : Prop := ∀ c ∈ rest.head?, c.isDigit = false

/-- What may follow the fraction of a literal. -/
def EndsFraction (rest : List Char) : Prop := ∀ c ∈ rest.head?, c.isDigit = false ∧ c ≠ '.'

theorem spanDigits_of_digits (h : Digits ds) (hmore : EndsDigits more) :
    spanDigits (ds ++ more) = (ds, more) := by
  have hstop : more.takeWhile Char.isDigit = [] ∧ more.dropWhile Char.isDigit = more := by
    cases more with
    | nil => exact ⟨rfl, rfl⟩
    | cons c more => simp [hmore c rfl]
  rw [spanDigits, List.takeWhile_append_of_pos h, List.dropWhile_append_of_pos h, hstop.1,
    hstop.2, List.append_nil]

theorem takes_wholeDigits? (h : Digits ds) : Takes EndsDigits wholeDigits? ds := by
  refine ⟨(wholeDigits? ds).map Prod.fst, fun more hmore => ?_⟩
  have halone : spanDigits (ds ++ []) = (ds, []) := spanDigits_of_digits h (by simp [EndsDigits])
  rw [List.append_nil] at halone
  unfold wholeDigits?
  rw [spanDigits_of_digits h hmore, halone]
  split <;> simp_all

theorem takes_fraction? (h : Point cs) : Takes EndsFraction fraction? cs := by
  cases h with
  | absent =>
    refine ⟨some none, fun more hmore => ?_⟩
    cases more with
    | nil => rfl
    | cons c more =>
      have hc := (hmore c rfl).2
      simp only [List.nil_append, fraction?]
      split <;> simp_all
  | present ds h =>
    refine ⟨if ds = [] then none else some (some ds), fun more hmore => ?_⟩
    have hdigits := spanDigits_of_digits h fun c hc => (hmore c hc).1
    simp only [List.cons_append, fraction?, hdigits]
    split <;> simp_all

theorem takes_exponent? (h : Exponent cs) : Takes Ends exponent? cs := by
  cases h with
  | absent =>
    refine ⟨some none, fun more hmore => ?_⟩
    cases more with
    | nil => rfl
    | cons c more =>
      obtain ⟨-, -, hlower, hupper⟩ := hmore c rfl
      simp [exponent?, hlower, hupper]
  | present sign ds hsign h hne =>
    refine ⟨some (some (decide (sign = ['-']), ds)), fun more hmore => ?_⟩
    have hdigits := spanDigits_of_digits h fun c hc => (hmore c hc).1
    have hread : readSign (sign ++ ds ++ more) = (decide (sign = ['-']), ds ++ more) := by
      obtain rfl | rfl | rfl := hsign
      · obtain ⟨c, ds, rfl⟩ := List.exists_cons_of_ne_nil hne
        have hc : c.isDigit := h c List.mem_cons_self
        simp only [List.nil_append, List.cons_append, readSign]
        split
        next heq => cases heq; cases hc
        next heq => cases heq; cases hc
        next => rfl
      · rfl
      · rfl
    simp only [List.cons_append, exponent?, true_or, if_true, hread, hdigits]
    rfl

/-- What the point and the exponent of a literal begin with goes on with no digits before them. -/
theorem Exponent.endsFraction (h : Exponent cs) (hmore : Ends more) :
    EndsFraction (cs ++ more) := by
  cases h with
  | absent => exact fun c hc => ⟨(hmore c hc).1, (hmore c hc).2.1⟩
  | present sign ds hsign h hne =>
    rintro c hc
    cases hc
    decide

theorem Point.endsDigits (h : Point cs) (hmore : EndsFraction more) : EndsDigits (cs ++ more) := by
  cases h with
  | absent => exact fun c hc => (hmore c hc).1
  | present ds h =>
    rintro c hc
    cases hc
    decide

theorem takes_unsigned? (negative : Bool) (h : Laid cs) : Takes Ends (unsigned? negative) cs := by
  obtain ⟨whole, point, exponent, hwhole, -, hpoint, hexponent⟩ := h
  obtain ⟨w?, hw⟩ := takes_wholeDigits? hwhole
  obtain ⟨f?, hf⟩ := takes_fraction? hpoint
  obtain ⟨x?, hx⟩ := takes_exponent? hexponent
  refine ⟨w?.bind fun w => f?.bind fun f => x?.map fun x => ⟨negative, w, f, x⟩, ?_⟩
  intro rest hrest
  have hfraction := hexponent.endsFraction hrest
  have hdigits := hpoint.endsDigits hfraction
  rw [List.append_assoc, List.append_assoc, unsigned?, hw _ hdigits]
  cases w? with
  | none => rfl
  | some w =>
    simp only [Option.map_some, Option.bind_eq_bind, Option.bind_some, hf _ hfraction]
    cases f? with
    | none => rfl
    | some f =>
      simp only [Option.map_some, Option.bind_some, hx _ hrest]
      cases x? <;> rfl

theorem Laid.head (h : Laid cs) : ∃ c ds, cs = c :: ds ∧ c.isDigit := by
  obtain ⟨whole, point, exponent, hwhole, hne, -, -⟩ := h
  obtain ⟨c, ds, rfl⟩ := List.exists_cons_of_ne_nil hne
  exact ⟨c, _, rfl, hwhole c List.mem_cons_self⟩

theorem takes_literal? {sign : List Char} (hsign : sign = [] ∨ sign = ['-']) (h : Laid cs) :
    Takes Ends literal? (sign ++ cs) := by
  obtain rfl | rfl := hsign
  · obtain ⟨c, ds, rfl, hc⟩ := h.head
    have hminus : c ≠ '-' := by
      rintro rfl
      cases hc
    obtain ⟨l?, hl⟩ := takes_unsigned? false h
    exact ⟨l?, fun rest hrest => (literal?_cons hminus _).trans (hl rest hrest)⟩
  · exact takes_unsigned? true h

/-! ### Layouts -/

theorem digits_append (h : Digits ds) (hmore : Digits more) : Digits (ds ++ more) :=
  List.forall_mem_append.mpr ⟨h, hmore⟩

theorem digits_zero : Digits ['0'] := List.forall_mem_singleton.mpr rfl

theorem digits_replicate (n : Nat) : Digits (List.replicate n '0') := fun c hc => by
  rw [List.eq_of_mem_replicate hc]
  decide

theorem laid_positional (h : Digits ds) (hne : ds ≠ []) (lead : Int) :
    Laid (positional ds lead) := by
  unfold positional
  split
  next =>
    have hzeros := digits_append (digits_replicate (-lead - 1).toNat) h
    have hlaid :=
      Laid.parts ['0'] _ [] digits_zero (List.cons_ne_nil _ _) (.present _ hzeros) .absent
    rwa [List.append_nil] at hlaid
  next =>
    have hpadded := digits_append h (digits_replicate (lead.toNat + 1 - ds.length))
    have hwhole : Digits ((ds ++ List.replicate (lead.toNat + 1 - ds.length) '0').take
        (lead.toNat + 1)) := fun c hc => hpadded c (List.mem_of_mem_take hc)
    have hfraction : Digits ((ds ++ List.replicate (lead.toNat + 1 - ds.length) '0').drop
        (lead.toNat + 1)) := fun c hc => hpadded c (List.mem_of_mem_drop hc)
    have hlaid : ∀ fraction, Digits fraction → Laid
        ((ds ++ List.replicate (lead.toNat + 1 - ds.length) '0').take (lead.toNat + 1) ++
          '.' :: fraction) := fun fraction h => by
      have hlaid := Laid.parts _ _ [] hwhole (by simp [hne]) (.present fraction h) .absent
      rwa [List.append_nil] at hlaid
    refine hlaid _ ?_
    split
    next => exact digits_zero
    next => exact hfraction

theorem laid_scientific (plusSign : Bool) (h : Digits ds) (hne : ds ≠ []) (lead : Int) :
    Laid (scientific plusSign ds lead) := by
  have hexponent : Exponent ('e' :: ((if lead < 0 then ['-'] else if plusSign then ['+'] else []) ++
      digitChars lead.natAbs)) := by
    refine .present _ _ ?_ (fun c => isDigit_of_mem_digitChars) Nat.toDigits_ne_nil
    split
    next => exact .inr (.inl rfl)
    next => split <;> simp
  obtain ⟨d, rest, rfl⟩ := List.exists_cons_of_ne_nil hne
  obtain ⟨hd, hrest⟩ := List.forall_mem_cons.mp h
  have hlead : Digits [d] := List.forall_mem_singleton.mpr hd
  cases rest with
  | nil => exact .parts [d] [] _ hlead (List.cons_ne_nil _ _) .absent hexponent
  | cons d' rest =>
    have hlaid := Laid.parts [d] _ _ hlead (List.cons_ne_nil _ _) (.present _ hrest) hexponent
    simpa [scientific] using hlaid

/-- Up to a sign every finite layout is a literal. -/
theorem laid_finite (layout : Layout) (x : Float) :
    ∃ sign cs, (sign = [] ∨ sign = ['-']) ∧ Laid cs ∧ layout.finite x = sign ++ cs := by
  have hsign : ∀ b : Bool, (if b then ['-'] else []) = [] ∨ (if b then ['-'] else []) = ['-'] := by
    simp
  unfold Layout.finite
  dsimp only
  split
  next =>
    exact ⟨_, _, hsign _, .parts ['0'] _ [] digits_zero (List.cons_ne_nil _ _)
      (.present ['0'] digits_zero) .absent, rfl⟩
  next =>
    have hdigits : ∀ n, Digits (digitChars n) := fun n c => isDigit_of_mem_digitChars
    split
    next =>
      exact ⟨_, _, hsign _, laid_positional (hdigits _) Nat.toDigits_ne_nil _, rfl⟩
    next =>
      exact ⟨_, _, hsign _, laid_scientific _ (hdigits _) Nat.toDigits_ne_nil _, rfl⟩

/-- A float is written as a literal, unless it is none of the numbers. -/
theorem text_float (x : Float) :
    (text (.float x) = ['n', 'a', 'n'] ∨ text (.float x) = ['i', 'n', 'f'] ∨
      text (.float x) = ['-', 'i', 'n', 'f']) ∨
    ∃ sign cs, (sign = [] ∨ sign = ['-']) ∧ Laid cs ∧ text (.float x) = sign ++ cs := by
  rw [text, Layout.text]
  split
  next => exact .inl (.inl rfl)
  next =>
    split
    next =>
      split
      next => exact .inl (.inr (.inl rfl))
      next => exact .inl (.inr (.inr rfl))
    next =>
      rw [String.toList_ofList]
      exact .inr (laid_finite .json x)

/-- The text of a float is taken up as a whole or not at all. -/
theorem takes_text_float (x : Float) : Takes Ends read? (text (.float x)) := by
  obtain (htext | htext | htext) | ⟨sign, cs, hsign, hlaid, htext⟩ := text_float x
  · exact ⟨none, fun rest _ => htext ▸ rfl⟩
  · exact ⟨none, fun rest _ => htext ▸ rfl⟩
  · exact ⟨none, fun rest _ => htext ▸ rfl⟩
  · obtain ⟨l?, hl⟩ := takes_literal? hsign hlaid
    refine ⟨l?.bind ofLiteral?, fun rest hrest => ?_⟩
    rw [read?, htext, hl rest hrest]
    cases l? with
    | none => rfl
    | some l => cases hn : ofLiteral? l <;> simp [hn]

end Number

/-! ## The lexer -/

namespace Json

open Number

variable {cs cs' : List Char} {ts : List Token} {P Q : Prop} {j : Json}

/-- The lexer gets past a text only on a condition. -/
def Requires (cs : List Char) (P : Prop) : Prop :=
  ∀ rest fuel, Ends rest → (cs ++ rest).length ≤ fuel → (lex? fuel (cs ++ rest)).isSome → P

theorem Requires.of_true (h : P) : Requires cs P := fun _ _ _ _ _ => h

theorem Requires.append (h : Requires cs P) (he : Ends cs') : Requires (cs ++ cs') P := by
  intro rest fuel hrest hf hsome
  rw [List.append_assoc] at hf hsome
  exact h _ fuel (ends_append he hrest) hf hsome

/-- What the lexer requires of the text behind tokens, it requires of all. -/
theorem Spells.requires (h : Spells cs ts) (h' : Requires cs' P) (he : Ends cs') :
    Requires (cs ++ cs') P := by
  intro rest fuel hrest hf hsome
  rw [List.append_assoc] at hf hsome
  obtain ⟨fuel', hf', hlex⟩ := h _ fuel (ends_append he hrest) hf
  rw [hlex, Option.isSome_map] at hsome
  exact h' rest fuel' hrest hf' hsome

/-- The first of two conditions lets the lexer find the tokens up to where the second is met. -/
theorem Requires.and (h : Requires cs P) (hspells : P → Spells cs ts) (h' : Requires cs' Q)
    (he : Ends cs') : Requires (cs ++ cs') (P ∧ Q) := by
  intro rest fuel hrest hf hsome
  have hp : P := h.append he rest fuel hrest hf hsome
  exact ⟨hp, (hspells hp).requires h' he rest fuel hrest hf hsome⟩

/-- A character that starts a token. -/
theorem requires_token {c : Char} (hc : isBlank c = false)
    (h : ∀ rest, Ends rest → (token? c (cs ++ rest)).isSome → P) : Requires (c :: cs) P := by
  intro rest fuel hrest hf hsome
  cases fuel with
  | zero => cases hf
  | succ fuel =>
    rw [List.cons_append, lex?, if_neg (by simp [hc])] at hsome
    refine h rest hrest ?_
    cases htoken : token? c (cs ++ rest) with
    | none => simp [htoken] at hsome
    | some t => rfl

theorem floatLegible_of_read? {x : Float} {rest : List Char} (hrest : Ends rest)
    (h : (read? (text (.float x) ++ rest)).isSome) : FloatLegible x := by
  obtain ⟨n?, hn⟩ := takes_text_float x
  have halone := hn [] ends_nil
  rw [List.append_nil] at halone
  rw [hn rest hrest] at h
  cases n? with
  | none => cases h
  | some n => exact ⟨n, halone⟩

theorem requires_float (x : Float) : Requires (text (.float x)) (FloatLegible x) := by
  obtain (htext | htext | htext) | ⟨sign, cs, hsign, hlaid, htext⟩ := text_float x
  · rw [htext]
    exact requires_token rfl fun rest _ h => nomatch h
  · rw [htext]
    exact requires_token rfl fun rest _ h => nomatch h
  · rw [htext]
    exact requires_token rfl fun rest _ h => nomatch h
  · obtain ⟨c, ds, hhead, hc⟩ : ∃ c ds, sign ++ cs = c :: ds ∧ (c.isDigit ∨ c = '-') := by
      obtain rfl | rfl := hsign
      · obtain ⟨c, ds, rfl, hc⟩ := hlaid.head
        exact ⟨c, ds, rfl, .inl hc⟩
      · exact ⟨'-', cs, rfl, .inr rfl⟩
    rw [htext, hhead]
    refine requires_token (isBlank_eq_false hc) fun rest hrest h => ?_
    rw [token?_number hc, Option.isSome_map, ← List.cons_append, ← hhead, ← htext] at h
    exact floatLegible_of_read? hrest h

/-! ## The pretty form -/

/-- Blanks require nothing. -/
theorem Requires.blank {c : Char} (hc : isBlank c) (h : Requires cs P) : Requires (c :: cs) P := by
  intro rest fuel hrest hf hsome
  cases fuel with
  | zero => cases hf
  | succ fuel =>
    rw [List.cons_append, lex?, if_pos hc] at hsome
    exact h rest fuel hrest (Nat.le_of_succ_le_succ hf) hsome

theorem Requires.newline (level : Nat) (h : Requires cs P) : Requires (newline level ++ cs) P := by
  have spaces : ∀ n, Requires (List.replicate n ' ' ++ cs) P := by
    intro n
    induction n with
    | zero => exact h
    | succ n ih => exact .blank rfl ih
  exact .blank rfl (spaces _)

theorem Requires.comma (first : Bool) (h : Requires cs P) (he : Ends cs) :
    Requires ((if first then [] else [',']) ++ cs) P := by
  cases first with
  | true => exact h
  | false => exact (Spells.token rfl fun _ _ => rfl : Spells [','] [.comma]).requires h he

/-- A part of a document that the lexer gets past only if it can be read, and whose tokens it finds
then. -/
structure Gated (level : Nat) (j : Json) : Prop where
  requires : Requires (j.prettyChars level) j.Legible
  spells : j.Legible → Spells (j.prettyChars level) j.reread.tokens

theorem requires_prettyItems {items : List Json} {level : Nat}
    (h : ∀ j ∈ items, j.Gated (level + 1)) (first : Bool) :
    Requires (prettyItems level first items) (∀ j ∈ items, j.Legible) := by
  induction items generalizing first with
  | nil => exact .of_true (List.forall_mem_nil _)
  | cons j rest ih =>
    obtain ⟨hj, hrest⟩ := List.forall_mem_cons.mp h
    have hboth := hj.requires.and hj.spells (ih hrest false) (ends_prettyItems level false rest)
    rw [← List.forall_mem_cons] at hboth
    simp only [prettyItems, List.append_assoc]
    exact (hboth.newline (level + 1)).comma first (Number.ends_cons (by decide))

theorem requires_prettyEntries {entries : List (String × Json)} {level : Nat}
    (h : ∀ e ∈ entries, e.2.Gated (level + 1)) (first : Bool) :
    Requires (prettyEntries level first entries) (∀ e ∈ entries, e.2.Legible) := by
  induction entries generalizing first with
  | nil => exact .of_true (List.forall_mem_nil _)
  | cons e rest ih =>
    obtain ⟨he, hrest⟩ := List.forall_mem_cons.mp h
    have hboth := he.requires.and he.spells (ih hrest false) (ends_prettyEntries level false rest)
    have hcolon := (Spells.token rfl fun _ _ => rfl : Spells [':'] [.colon]).requires
      (hboth.blank (c := ' ') rfl) (Number.ends_cons (by decide))
    have hkey := (spells_quoted e.1).requires hcolon (Number.ends_cons (by decide))
    rw [List.forall_mem_cons]
    simp only [prettyEntries, List.append_assoc]
    exact (hkey.newline (level + 1)).comma first (Number.ends_cons (by decide))

/-- The lexer gets past the pretty form of a document only if every float in it can be read. -/
theorem gated_pretty (hw : j.WellFormed) (level : Nat) : j.Gated level := by
  refine ⟨?_, fun hl => spells_pretty hw hl level⟩
  induction j using induct generalizing level with
  | null => exact .of_true trivial
  | bool b => exact .of_true trivial
  | string s => exact .of_true trivial
  | number n =>
    cases n with
    | integer i => exact .of_true trivial
    | float x => exact requires_float x
  | array items ih =>
    rw [wellFormed_array] at hw
    rw [legible_array]
    have hopen : Spells ['['] [.openArray] := .token rfl fun _ _ => rfl
    have hitems := requires_prettyItems (fun j hj =>
      ⟨ih j hj (hw j hj) (level + 1), fun hl => spells_pretty (hw j hj) hl (level + 1)⟩) true
    cases items with
    | nil => exact .of_true (List.forall_mem_nil _)
    | cons j rest => exact hopen.requires hitems (ends_prettyItems level true (j :: rest))
  | object entries ih =>
    rw [wellFormed_object] at hw
    rw [legible_object]
    have hopen : Spells ['\x7b'] [.openObject] := .token rfl fun _ _ => rfl
    have hentries := requires_prettyEntries (fun e he =>
      ⟨ih e he (hw.2 e he) (level + 1), fun hl => spells_pretty (hw.2 e he) hl (level + 1)⟩) true
    cases entries with
    | nil => exact .of_true (List.forall_mem_nil _)
    | cons e rest => exact hopen.requires hentries (ends_prettyEntries level true (e :: rest))

theorem legible_of_tokens?_pretty (hw : j.WellFormed) (h : (tokens? (j.prettyChars 0)).isSome) :
    j.Legible := by
  refine (gated_pretty hw 0).requires [] (j.prettyChars 0).length ends_nil ?_ ?_
  · simp
  · rwa [List.append_nil]

/-- What is written is read again exactly if all its floats can be read and it does not nest too
deep; otherwise it is refused. -/
theorem ofText?_pretty_eq_some_iff (hw : j.WellFormed) {limit : Nat} {read : Json} :
    ofText? limit j.pretty = some read ↔ j.Legible ∧ j.nesting ≤ limit ∧ read = j.reread := by
  constructor
  · intro h
    have hl : j.Legible := by
      rw [ofText?, pretty, String.toList_ofList] at h
      obtain ⟨ts, hts, -⟩ := Option.bind_eq_some_iff.mp h
      exact legible_of_tokens?_pretty hw (by rw [hts]; rfl)
    rw [ofText?_pretty_eq hw hl] at h
    split at h
    next hle => exact ⟨hl, hle, (Option.some.inj h).symm⟩
    next => cases h
  · rintro ⟨hl, hle, rfl⟩
    rw [ofText?_pretty_eq hw hl, if_pos hle]

end Json

end CallSampler
