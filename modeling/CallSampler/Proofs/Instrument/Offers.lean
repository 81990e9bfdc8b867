import CallSampler.Proofs.Import.Endings

/-!
# Offers

A module is offered to the instrumentor of a context directly, or by the hook of the context at the
end of an import that succeeds. What an instrumentor has decided after some offers is what it had
decided before, and one more decision for each name that was offered for the first time (`Decides`):
the first offer of a name decides about it for good, and every later one does nothing.
-/

namespace CallSampler

/-! ## Offers -/

/-- An offer of a module to an instrumentor. -/
structure Offer where
  module : Nat
  /-- The name of the module. -/
  name : String
  before : Session

namespace Session

/-- What an instrumentor has decided. -/
def processed (ι : Nat) (s : Session) : List (String × ModuleState) :=
  ((s.instrumentors[ι]?).map Instrumentor.processed).getD []

/-- The offer that offering a module to a context is to an instrumentor, if the context has that
one. -/
def offersTo (ι c m : Nat) (s : Session) : List Offer :=
  if (s.contexts[c]?).map Context.instrumentor = some ι then
    (s.nameOf? m).toList.map fun name => { module := m, name, before := s }
  else []

/-- The offer that a hook makes to an instrumentor. -/
def hookOffers (ι m : Nat) (s : Session) : Hook → List Offer
  | .instrumentation c => s.offersTo ι c m
  | .observer _ => []

/-- The offers that hooks make to an instrumentor, one after the other. -/
def hooksOffers (ι m : Nat) : List Hook → Session → List Offer
  | [], _ => []
  | hook :: rest, s => s.hookOffers ι m hook ++ hooksOffers ι m rest (s.fire m hook)

end Session

/-- The offers that the hooks of an importer make to an instrumentor at the end of an import. -/
def Ending.offers (ι i : Nat) (e : Ending) : List Offer :=
  match e.result with
  | .ok m => Session.hooksOffers ι m (e.found.hooks i) e.found
  | .error _ => []

/-- From some decisions of an instrumentor to later ones, with the offers in between: an offer under
a name that is decided changes nothing, and any other one adds a decision. -/
inductive Decides (ι : Nat) : List (String × ModuleState) → List Offer →
    List (String × ModuleState) → Prop where
  | nothing (decided : List (String × ModuleState)) : Decides ι decided [] decided
  | again {decided later : List (String × ModuleState)} {o : Offer} {rest : List Offer}
    (before : o.before.processed ι = decided) (known : o.name ∈ Entries.keys decided)
    (evaluation : o.before.evaluate ι o.module = (.alreadyProcessed, o.before))
    (after : Decides ι decided rest later) : Decides ι decided (o :: rest) later
  | first {decided later : List (String × ModuleState)} {o : Offer} {rest : List Offer}
    {state : ModuleState} (before : o.before.processed ι = decided)
    (new : o.name ∉ Entries.keys decided)
    (evaluation : (o.before.evaluate ι o.module).1 = .evaluated state)
    (after : Decides ι (decided ++ [(o.name, state)]) rest later) :
    Decides ι decided (o :: rest) later

namespace Decides

variable {ι : Nat} {p q r : List (String × ModuleState)} {offers more : List Offer} {o : Offer}

theorem trans (h : Decides ι p offers q) (h' : Decides ι q more r) :
    Decides ι p (offers ++ more) r := by
  induction h with
  | nothing => exact h'
  | again before known evaluation _ ih => exact .again before known evaluation (ih h')
  | first before new evaluation _ ih => exact .first before new evaluation (ih h')

/-- The decisions are one for each name that was offered, in the order of the first offers. -/
theorem keys (h : Decides ι p offers q) :
    Entries.keys q = (offers.map Offer.name).foldl
      (fun names l => if l ∈ names then names else names ++ [l]) (Entries.keys p) := by
  induction h with
  | nothing => rfl
  | again _ known _ _ ih => rw [ih, List.map_cons, List.foldl_cons, if_pos known]
  | first _ new _ _ ih =>
    rw [ih, List.map_cons, List.foldl_cons, if_neg new, Entries.keys_append]
    rfl

theorem mem_keys_iff (h : Decides ι p offers q) (name : String) :
    name ∈ Entries.keys q ↔ name ∈ Entries.keys p ∨ name ∈ offers.map Offer.name := by
  rw [h.keys, Entries.foldl_addNew, List.mem_append, List.mem_eraseDups, List.mem_filter]
  by_cases hname : name ∈ Entries.keys p <;> simp [hname]

/-- What is decided stays as it is. -/
theorem kept (h : Decides ι p offers q) {name : String} {state : ModuleState}
    (hstate : Entries.get? name p = some state) : Entries.get? name q = some state := by
  induction h with
  | nothing => exact hstate
  | again _ _ _ _ ih => exact ih hstate
  | first _ _ _ _ ih =>
    refine ih ?_
    rw [Entries.get?] at hstate ⊢
    rw [Entries.find?_append, hstate, Option.some_or]

/-- Each offer in its turn finds what the offers before it left. -/
theorem split {earlier later : List Offer} (h : Decides ι p (earlier ++ o :: later) q) :
    ∃ mid, Decides ι p earlier mid ∧ Decides ι mid (o :: later) q := by
  induction earlier generalizing p with
  | nil => exact ⟨p, .nothing p, h⟩
  | cons _ _ ih =>
    cases h with
    | again before known evaluation after =>
      obtain ⟨mid, hmid, hrest⟩ := ih after
      exact ⟨mid, .again before known evaluation hmid, hrest⟩
    | first before new evaluation after =>
      obtain ⟨mid, hmid, hrest⟩ := ih after
      exact ⟨mid, .first before new evaluation hmid, hrest⟩

/-- The first offer of a name decides about it for good. -/
theorem evaluated {earlier later : List Offer} (h : Decides ι p (earlier ++ o :: later) q)
    (hp : o.name ∉ Entries.keys p) (hnew : o.name ∉ earlier.map Offer.name) :
    ∃ state, (o.before.evaluate ι o.module).1 = .evaluated state ∧
      Entries.get? o.name q = some state := by
  obtain ⟨mid, hmid, hrest⟩ := h.split
  have hunknown : o.name ∉ Entries.keys mid := by
    rw [hmid.mem_keys_iff]
    exact fun hor => hor.elim hp hnew
  cases hrest with
  | again _ known _ _ => exact absurd known hunknown
  | @first _ _ _ _ state _ _ evaluation after =>
    refine ⟨state, evaluation, after.kept ?_⟩
    have hnone : Entries.find? (· == o.name) mid = none := by
      rw [← Option.not_isSome_iff_eq_none, Entries.isSome_find?_iff]
      exact hunknown
    rw [Entries.get?, Entries.find?_append, hnone, Option.none_or, Entries.find?,
      if_pos (beq_self_eq_true _)]

/-- Every later offer of a name does nothing. -/
theorem ignored {earlier later : List Offer} (h : Decides ι p (earlier ++ o :: later) q)
    (hknown : o.name ∈ earlier.map Offer.name) :
    o.before.evaluate ι o.module = (.alreadyProcessed, o.before) := by
  obtain ⟨mid, hmid, hrest⟩ := h.split
  cases hrest with
  | again _ _ evaluation _ => exact evaluation
  | first _ new _ _ => exact absurd ((hmid.mem_keys_iff _).mpr (.inr hknown)) new

end Decides

/-! ## One offer -/

namespace Session

variable {ι κ c m : Nat} {s s' : Session} {name : String}

theorem processed_of_getElem? {inst : Instrumentor} (h : s.instrumentors[ι]? = some inst) :
    s.processed ι = inst.processed := by
  rw [processed, h]
  rfl

theorem isSome_evaluate (h : (s.instrumentors[ι]?).isSome) :
    ((s.evaluate κ m).2.instrumentors[ι]?).isSome := by
  rcases evaluate_cases κ m s with heq | ⟨inst, md, md', made, notices, state, -, -, -, -, heq⟩
  · rwa [heq]
  · rw [heq]
    show ((s.instrumentors.modify κ _)[ι]?).isSome
    rw [Array.getElem?_modify]
    split
    next => rwa [Option.isSome_map]
    next => exact h

/-- An instrumentor that is offered a module decides about its name, unless it did before. -/
theorem decides_evaluate (h : (s.instrumentors[ι]?).isSome) (m : Nat) :
    Decides ι (s.processed ι)
      ((s.nameOf? m).toList.map fun name => { module := m, name, before := s })
      ((s.evaluate ι m).2.processed ι) := by
  obtain ⟨inst, hinst⟩ := Option.isSome_iff_exists.mp h
  cases hmd : s.modules[m]? with
  | none =>
    have hnothing : s.evaluate ι m = (.alreadyProcessed, s) := by
      simp only [evaluate, hinst, hmd]
    rw [hnothing, nameOf?, hmd]
    exact .nothing _
  | some md =>
    rw [nameOf?, hmd]
    cases hstate : inst.state? md.name with
    | some state =>
      have hseen := evaluate_of_seen hinst hmd hstate
      rw [hseen]
      refine .again rfl ?_ hseen (.nothing _)
      rw [processed_of_getElem? hinst, ← Entries.isSome_find?_iff]
      exact Option.isSome_iff_exists.mpr ⟨state, hstate⟩
    | none =>
      have hnew : md.name ∉ Entries.keys inst.processed := by
        rw [← Entries.isSome_find?_iff]
        exact Option.not_isSome_iff_eq_none.mpr hstate
      have hdecides : ∀ (state : ModuleState) (t : Session),
          t.instrumentors = s.instrumentors → (s.evaluate ι m).1 = .evaluated state →
          Decides ι (s.processed ι) [{ module := m, name := md.name, before := s }]
            ((t.remember ι md.name state).processed ι) := by
        intro state t ht heval
        have hlater : (t.remember ι md.name state).processed ι =
            s.processed ι ++ [(md.name, state)] := by
          rw [processed, remember, Array.getElem?_modify, if_pos rfl, ht, hinst,
            processed_of_getElem? hinst]
          exact Entries.put_of_notMem hnew
        rw [hlater]
        exact .first rfl (by rwa [processed_of_getElem? hinst]) heval (.nothing _)
      rcases evaluate_cases ι m s with
        heq | ⟨inst', md₁, md', made, notices, state, -, hmd', -, -, heq⟩
      · rw [evaluate_of_new hinst hmd hstate] at heq
        split at heq <;> cases heq
      · rw [hmd] at hmd'
        obtain rfl := Option.some.inj hmd'
        have heval := congrArg Prod.fst heq
        have hafter := congrArg Prod.snd heq
        rw [hafter]
        exact hdecides state _ rfl heval

theorem decides_offer (h : (s.instrumentors[ι]?).isSome) (c m : Nat) :
    Decides ι (s.processed ι) (s.offersTo ι c m) ((s.offer c m).2.processed ι) := by
  unfold offersTo offer
  cases hctx : s.contexts[c]? with
  | none =>
    rw [if_neg (by simp)]
    exact .nothing _
  | some ctx =>
    rw [Option.map_some]
    by_cases hι : ctx.instrumentor = ι
    · rw [if_pos (congrArg some hι)]
      dsimp only
      rw [hι]
      exact decides_evaluate h m
    · have hsame : (s.evaluate ctx.instrumentor m).2.processed ι = s.processed ι := by
        rw [processed, (evaluate_rest ctx.instrumentor m s).1 ι (Ne.symm hι), processed]
      rw [if_neg fun he => hι (Option.some.inj he)]
      dsimp only
      rw [hsame]
      exact .nothing _

theorem decides_fire (h : (s.instrumentors[ι]?).isSome) (m : Nat) (hook : Hook) :
    Decides ι (s.processed ι) (s.hookOffers ι m hook) ((s.fire m hook).processed ι) := by
  cases hook with
  | instrumentation c => exact decides_offer h c m
  | observer id =>
    have hsame : (s.fire m (.observer id)).processed ι = s.processed ι := by
      rw [fire]
      split <;> rfl
    rw [hsame]
    exact .nothing _

end Session

end CallSampler
