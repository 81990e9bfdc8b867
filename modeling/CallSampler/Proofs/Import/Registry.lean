import CallSampler.Proofs.Import.Endings

/-!
# What an importer holds

A source is taken out of an importer while its module is loaded, and put back if its loader errs; a
module that was loaded is kept. Where loaders only import, and register nothing, these three changes
go on from one session to a later one (`Later`): what is loaded stays loaded, what is neither loaded
nor available stays so, and the weight of the sources, which bounds how deep imports nest, does not
grow.
-/

namespace CallSampler

/-! ## Loaders that only import -/

mutual

/-- A step that makes nothing available. -/
def LoadStep.Importing : LoadStep → Prop
  | .offer _ => False
  | .offerLoader _ _ => False
  | .branch _ yes no => AllImporting yes ∧ AllImporting no
  | _ => True

def AllImporting : List LoadStep → Prop
  | [] => True
  | step :: rest => step.Importing ∧ AllImporting rest

end

/-- A loader that makes nothing available and does not panic. -/
def Loader.Importing : Loader → Prop
  | .mk steps _ _ finish => AllImporting steps ∧ ∃ b, finish = .build b

def Source.Importing : Source → Prop
  | .ready _ => True
  | .deferred loader _ => loader.Importing

/-- A run that returns or errs. -/
def Outcome.Ends {ε α : Type} : Outcome ε α → Prop
  | .ok _ => True
  | .error _ => True
  | _ => False

/-! ## Weights -/

theorem Loader.size_pos (loader : Loader) : 0 < loader.size := by
  cases loader with
  | mk steps failures complaint finish =>
    rw [Loader.size]
    exact Nat.succ_pos _

namespace Importer

/-- The weight of a list of sources. -/
def total (sources : List (String × Source)) : Nat :=
  (sources.map fun e => e.2.size).foldr (· + ·) 0

theorem total_cons (e : String × Source) (rest : List (String × Source)) :
    total (e :: rest) = e.2.size + total rest := rfl

theorem total_erase_le (name : String) (sources : List (String × Source)) :
    total (Entries.erase name sources) ≤ total sources := by
  induction sources with
  | nil => exact Nat.le_refl _
  | cons e rest ih =>
    rw [Entries.erase] at ih ⊢
    by_cases he : e.1 = name
    · rw [List.filter_cons_of_neg (by simp [he]), total_cons]
      omega
    · rw [List.filter_cons_of_pos (by simp [he]), total_cons, total_cons]
      omega

/-- A source that is taken out leaves its weight behind. -/
theorem total_erase {name : String} {source : Source} {sources : List (String × Source)}
    (h : Entries.get? name sources = some source) :
    total (Entries.erase name sources) + source.size ≤ total sources := by
  induction sources with
  | nil => cases h
  | cons e rest ih =>
    rw [Entries.get?, Entries.find?] at h
    by_cases he : e.1 = name
    · rw [if_pos (beq_iff_eq.mpr he)] at h
      have hle := total_erase_le name rest
      rw [Entries.erase, List.filter_cons_of_neg (by simp [he]), ← Entries.erase, total_cons,
        Option.some.inj h]
      omega
    · rw [if_neg (by simpa using he)] at h
      have hle := ih h
      rw [Entries.erase, List.filter_cons_of_pos (by simp [he]), ← Entries.erase, total_cons,
        total_cons]
      omega

theorem total_set_le (name : String) (source : Source) (sources : List (String × Source)) :
    total (Entries.set name source sources) ≤ total sources + source.size := by
  induction sources with
  | nil => exact Nat.le_of_eq (Nat.add_comm ..)
  | cons e rest ih =>
    rw [Entries.set] at ih ⊢
    rw [Entries.put]
    split
    next => simp only [total_cons]; omega
    next => simp only [total_cons]; omega

end Importer

/-! ## What an importer holds, step by step -/

namespace Session

variable {i m : Nat} {name k : String} {s t u : Session} {source : Source}

/-- Neither loaded nor available. -/
structure Absent (i : Nat) (name : String) (s : Session) : Prop where
  source : s.source? i name = none
  loaded : s.loaded? i name = none

/-- Every loader that an importer holds only imports. -/
def Plain (i : Nat) (s : Session) : Prop :=
  ∀ name source, s.source? i name = some source → source.Importing

/-- What an importer holds is read off the importer. -/
structure SameImporter (i : Nat) (s t : Session) : Prop where
  same : t.importers[i]? = s.importers[i]?

namespace SameImporter

theorem source? (h : SameImporter i s t) (name : String) :
    t.source? i name = s.source? i name := by
  rw [Session.source?, h.same, Session.source?]

theorem loaded? (h : SameImporter i s t) (name : String) :
    t.loaded? i name = s.loaded? i name := by
  rw [Session.loaded?, h.same, Session.loaded?]

theorem hooks (h : SameImporter i s t) : t.hooks i = s.hooks i := by
  rw [Session.hooks, h.same, Session.hooks]

theorem weight (h : SameImporter i s t) : t.weight i = s.weight i := by
  rw [Session.weight, h.same, Session.weight]

end SameImporter

section OnImporter

variable {f : Importer → Importer}

/-- A change to other parts of an importer leaves what it has loaded. -/
theorem loaded?_onImporter (hf : ∀ imp, (f imp).loaded = imp.loaded) (i j : Nat) (name : String)
    (s : Session) : (s.onImporter i f).loaded? j name = s.loaded? j name := by
  rw [loaded?, loaded?, importers_onImporter]
  split
  next =>
    rw [Option.bind_map, Function.comp_def]
    simp only [hf]
  next => rfl

theorem hooks_onImporter (hf : ∀ imp, (f imp).hooks = imp.hooks) (i j : Nat) (s : Session) :
    (s.onImporter i f).hooks j = s.hooks j := by
  rw [hooks, hooks, importers_onImporter]
  split
  next =>
    rw [Option.map_map, Function.comp_def]
    simp only [hf]
  next => rfl

end OnImporter

/-- The registry without a source. -/
def dropSource (i : Nat) (name : String) (s : Session) : Session :=
  s.onImporter i fun imp => { imp with sources := Entries.erase name imp.sources }

/-- The registry with a source. -/
def putSource (i : Nat) (name : String) (source : Source) (s : Session) : Session :=
  s.onImporter i fun imp => { imp with sources := Entries.set name source imp.sources }

theorem takeSource_eq (i : Nat) (name : String) (s : Session) :
    s.takeSource i name = (s.source? i name, s.dropSource i name) := rfl

theorem source?_dropSource (i : Nat) (name k : String) (s : Session) :
    (s.dropSource i name).source? i k = if name = k then none else s.source? i k := by
  rw [source?, source?, dropSource, getElem?_onImporter]
  cases s.importers[i]? with
  | none => simp
  | some imp => exact Entries.get?_erase name k imp.sources

theorem loaded?_dropSource (i : Nat) (name k : String) (s : Session) :
    (s.dropSource i name).loaded? i k = s.loaded? i k := by
  apply loaded?_onImporter
  exact fun _ => rfl

theorem hooks_dropSource (i : Nat) (name : String) (s : Session) :
    (s.dropSource i name).hooks i = s.hooks i := by
  apply hooks_onImporter
  exact fun _ => rfl

theorem weight_dropSource_le (i : Nat) (name : String) (s : Session) :
    (s.dropSource i name).weight i ≤ s.weight i := by
  rw [weight, weight, dropSource, getElem?_onImporter]
  cases s.importers[i]? with
  | none => exact Nat.le_refl _
  | some imp => exact Importer.total_erase_le name imp.sources

theorem weight_dropSource (h : s.source? i name = some source) :
    (s.dropSource i name).weight i + source.size ≤ s.weight i := by
  obtain ⟨imp, himp, hget⟩ := Option.bind_eq_some_iff.mp h
  rw [weight, weight, dropSource, getElem?_onImporter, himp]
  exact Importer.total_erase hget

theorem source?_putSource (hthere : (s.importers[i]?).isSome) (name k : String)
    (source : Source) :
    (s.putSource i name source).source? i k =
      if name = k then some source else s.source? i k := by
  obtain ⟨imp, himp⟩ := Option.isSome_iff_exists.mp hthere
  have hput : (s.putSource i name source).source? i k =
      Entries.get? k (Entries.set name source imp.sources) := by
    rw [source?, putSource, getElem?_onImporter, himp]
    rfl
  rw [hput, Entries.get?, Entries.set, Entries.find?_put, source?, himp]
  simp only [beq_iff_eq]
  rfl

theorem loaded?_putSource (i : Nat) (name k : String) (source : Source) (s : Session) :
    (s.putSource i name source).loaded? i k = s.loaded? i k := by
  apply loaded?_onImporter
  exact fun _ => rfl

theorem hooks_putSource (i : Nat) (name : String) (source : Source) (s : Session) :
    (s.putSource i name source).hooks i = s.hooks i := by
  apply hooks_onImporter
  exact fun _ => rfl

theorem weight_putSource_le (i : Nat) (name : String) (source : Source) (s : Session) :
    (s.putSource i name source).weight i ≤ s.weight i + source.size := by
  rw [weight, weight, putSource, getElem?_onImporter]
  cases s.importers[i]? with
  | none => exact Nat.zero_le _
  | some imp => exact Importer.total_set_le name source imp.sources

theorem loaded?_keep (hthere : (s.importers[i]?).isSome) (name k : String) (md : Module) :
    (s.keep i name md).2.loaded? i k =
      if name = k then some (s.keep i name md).1 else s.loaded? i k := by
  obtain ⟨imp, himp⟩ := Option.isSome_iff_exists.mp hthere
  have hadded : (s.addModule md).2.importers[i]? = some imp := himp
  have hkept : (s.keep i name md).2.loaded? i k =
      Entries.get? k (Entries.set name (s.keep i name md).1 imp.loaded) := by
    rw [loaded?, keep, getElem?_onImporter, hadded]
    rfl
  rw [hkept, Entries.get?, Entries.set, Entries.find?_put, loaded?, himp]
  simp only [beq_iff_eq]
  rfl

theorem source?_keep (i : Nat) (name k : String) (md : Module) (s : Session) :
    (s.keep i name md).2.source? i k = s.source? i k := by
  have hkept : (s.keep i name md).2.source? i k = (s.addModule md).2.source? i k := by
    rw [source?, source?, keep, getElem?_onImporter]
    cases (s.addModule md).2.importers[i]? <;> rfl
  exact hkept

theorem hooks_keep (i : Nat) (name : String) (md : Module) (s : Session) :
    (s.keep i name md).2.hooks i = s.hooks i := by
  apply hooks_onImporter
  exact fun _ => rfl

theorem weight_keep (i : Nat) (name : String) (md : Module) (s : Session) :
    (s.keep i name md).2.weight i = s.weight i := by
  have hkept : (s.keep i name md).2.weight i = (s.addModule md).2.weight i := by
    rw [weight, weight, keep, getElem?_onImporter]
    cases (s.addModule md).2.importers[i]? <;> rfl
  exact hkept

/-! ## How a session goes on -/

/-- What no request undoes: what is loaded stays loaded, and hooks are only added. -/
structure Onward (i : Nat) (s t : Session) : Prop where
  there : (s.importers[i]?).isSome → (t.importers[i]?).isSome
  loaded : ∀ name m, s.loaded? i name = some m → t.loaded? i name = some m
  hooks : s.hooks i <+: t.hooks i

theorem Onward.refl (s : Session) : Onward i s s := ⟨id, fun _ _ => id, List.prefix_rfl⟩

theorem Onward.trans (h : Onward i s t) (h' : Onward i t u) : Onward i s u where
  there := fun hs => h'.there (h.there hs)
  loaded := fun name m hm => h'.loaded name m (h.loaded name m hm)
  hooks := h.hooks.trans h'.hooks

/-- What imports do not undo where loaders only import: what is absent stays absent as well, and
there is no more to be loaded than before. -/
structure Later (i : Nat) (s t : Session) : Prop where
  there : (s.importers[i]?).isSome → (t.importers[i]?).isSome
  loaded : ∀ name m, s.loaded? i name = some m → t.loaded? i name = some m
  absent : ∀ name, s.Absent i name → t.Absent i name
  hooks : t.hooks i = s.hooks i
  plain : s.Plain i → t.Plain i
  weight : t.weight i ≤ s.weight i

theorem Later.trans (h : Later i s t) (h' : Later i t u) : Later i s u where
  there := fun hs => h'.there (h.there hs)
  loaded := fun name m hm => h'.loaded name m (h.loaded name m hm)
  absent := fun name hs => h'.absent name (h.absent name hs)
  hooks := h'.hooks.trans h.hooks
  plain := fun hs => h'.plain (h.plain hs)
  weight := Nat.le_trans h'.weight h.weight

theorem Later.onward (h : Later i s t) : Onward i s t :=
  ⟨h.there, h.loaded, h.hooks ▸ List.prefix_rfl⟩

theorem SameImporter.later (h : SameImporter i s t) : Later i s t where
  there := fun hs => h.same ▸ hs
  loaded := fun name _ hm => (h.loaded? name).trans hm
  absent := fun name hs => ⟨(h.source? name).trans hs.source, (h.loaded? name).trans hs.loaded⟩
  hooks := h.hooks
  plain := fun hs name source hsource => hs name source ((h.source? name).symm.trans hsource)
  weight := Nat.le_of_eq h.weight

theorem Later.refl (s : Session) : Later i s s := SameImporter.later ⟨rfl⟩

theorem later_dropSource (i : Nat) (name : String) (s : Session) :
    Later i s (s.dropSource i name) where
  there := fun hs => by rwa [dropSource, getElem?_onImporter, Option.isSome_map]
  loaded := fun k _ hk => (loaded?_dropSource i name k s).trans hk
  absent := by
    refine fun k hk => ⟨?_, (loaded?_dropSource i name k s).trans hk.loaded⟩
    rw [source?_dropSource, hk.source, ite_self]
  hooks := hooks_dropSource i name s
  plain := by
    intro hs k source hk
    rw [source?_dropSource] at hk
    split at hk
    next => cases hk
    next => exact hs k source hk
  weight := weight_dropSource_le i name s

/-- A name whose source is taken out, and which is not loaded, is absent. -/
theorem absent_dropSource (h : s.loaded? i name = none) : (s.dropSource i name).Absent i name :=
  ⟨by rw [source?_dropSource, if_pos rfl], (loaded?_dropSource i name name s).trans h⟩

theorem isSome_of_source? (h : s.source? i name = some source) : (s.importers[i]?).isSome := by
  obtain ⟨imp, himp, -⟩ := Option.bind_eq_some_iff.mp h
  rw [himp, Option.isSome_some]

/-- A module is kept under a name that was available. -/
theorem Later.keep (h : Later i s t) (hsource : s.source? i name = some source)
    (hunloaded : t.loaded? i name = none) (md : Module) : Later i s (t.keep i name md).2 := by
  have hthere := h.there (isSome_of_source? hsource)
  refine ⟨fun _ => ?_, fun k m hk => ?_, fun k hk => ?_, (hooks_keep i name md t).trans h.hooks,
    fun hs k source hk => ?_, Nat.le_trans (Nat.le_of_eq (weight_keep i name md t)) h.weight⟩
  · show ((t.addModule md).2.onImporter i _).importers[i]?.isSome
    rwa [getElem?_onImporter, Option.isSome_map]
  · have hold := h.loaded k m hk
    have hne : name ≠ k := by
      rintro rfl
      rw [hunloaded] at hold
      cases hold
    rw [loaded?_keep hthere, if_neg hne, hold]
  · have hne : name ≠ k := by
      rintro rfl
      rw [hk.source] at hsource
      cases hsource
    have hold := h.absent k hk
    refine ⟨(source?_keep i name k md t).trans hold.source, ?_⟩
    rw [loaded?_keep hthere, if_neg hne, hold.loaded]
  · rw [source?_keep] at hk
    exact h.plain hs k source hk

/-- A source is put back under the name that it was taken from. -/
theorem Later.putSource {back : Source} (h : Later i (s.dropSource i name) t)
    (hsource : s.source? i name = some source) (hsize : back.size = source.size)
    (hback : source.Importing → back.Importing) : Later i s (t.putSource i name back) := by
  have hfirst := later_dropSource i name s
  have hlater := hfirst.trans h
  have hthere := hlater.there (isSome_of_source? hsource)
  refine ⟨fun _ => ?_, fun k m hk => ?_, fun k hk => ?_,
    (hooks_putSource i name back t).trans hlater.hooks, fun hs k source' hk => ?_, ?_⟩
  · rwa [Session.putSource, getElem?_onImporter, Option.isSome_map]
  · exact (loaded?_putSource i name k back t).trans (hlater.loaded k m hk)
  · have hne : name ≠ k := by
      rintro rfl
      rw [hk.source] at hsource
      cases hsource
    have hold := hlater.absent k hk
    refine ⟨?_, (loaded?_putSource i name k back t).trans hold.loaded⟩
    rw [source?_putSource hthere, if_neg hne, hold.source]
  · rw [source?_putSource hthere] at hk
    split at hk
    next =>
      cases hk
      exact hback (hs name source hsource)
    next => exact hlater.plain hs k source' hk
  · have hput := weight_putSource_le i name back t
    have htaken := weight_dropSource hsource
    have hle := h.weight
    omega

end Session

end CallSampler
