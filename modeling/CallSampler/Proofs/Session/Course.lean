import CallSampler.Proofs.Disk.Frames
import CallSampler.Proofs.Transparency.Programs

/-!
# One context, one write

Around an importer, installations, steps of the host program, shutdowns and dropped guards may come
in any order. The first installation makes the one context that all guards are for (`Course.Ruled`).
An event that does not close the context, and any event once it is closed, leaves the disk alone;
the event that closes it saves the store as it is at that moment. The two step lemmas
(`Ruled.undisturbed`, `Ruled.closing`) carry over to whole courses by induction on the events, and
every course is calm up to its first closing event (`calm_or_closing`).
-/

namespace CallSampler

open Session

/-! ## Courses -/

/-- Something that happens around an importer. Guards are numbered as they were handed out. -/
inductive Event where
  | install (config : Config)
  /-- A step of the host program, with fuel for the calls in it. -/
  | act (fuel : Nat) (step : Step)
  /-- An explicit shutdown of the context that a guard is for. -/
  | shutDown (guard : Nat)
  | drop (guard : Nat)

/-- A session, the guards handed out so far, and what the explicit shutdowns returned. -/
structure Course where
  session : Session
  guards : List Guard
  returned : List Bool

namespace Course

def start (s : Session) : Course := { session := s, guards := [], returned := [] }

/-- Let an event happen. A guard that was never handed out cannot be used. -/
def after (i : Nat) (t : Course) : Event → Course
  | .install config =>
    let (guard, s) := t.session.install i config
    { t with session := s, guards := t.guards ++ [guard] }
  | .act fuel step => { t with session := (step.run fuel t.session).2 }
  | .shutDown k =>
    match t.guards[k]? with
    | none => t
    | some guard =>
      let (first, s) := t.session.shutDown guard.context
      { t with session := s, returned := t.returned ++ [first] }
  | .drop k =>
    match t.guards[k]? with
    | none => t
    | some guard => { t with session := t.session.dropGuard guard }

def run (i : Nat) (events : List Event) (t : Course) : Course := events.foldl (after i) t

theorem run_append (i : Nat) (first second : List Event) (t : Course) :
    t.run i (first ++ second) = (t.run i first).run i second := List.foldl_append ..

end Course

/-- Whether an event is an explicit shutdown or drops the first guard. -/
def Event.Closes (t : Course) : Event → Prop
  | .shutDown k => k < t.guards.length
  | .drop k => k = 0 ∧ t.guards ≠ []
  | _ => False

def Event.Installs : Event → Prop
  | .install _ => True
  | _ => False

/-- None of the events closes anything. -/
def Course.Calm (i : Nat) : Course → List Event → Prop
  | _, [] => True
  | t, e :: rest => ¬e.Closes t ∧ Calm i (t.after i e) rest

namespace Session

/-- Where nothing is installed, an installation makes a context and hooks the importer by it. -/
theorem install_of_none {i : Nat} {s : Session} (h : s.installed? i = none) (config : Config) :
    s.install i config = ({ context := s.contexts.size, persists := true },
      ((s.addContext config).2.installHook i (.instrumentation s.contexts.size)).2.notify
        (.installed config.cacheFile)) := by
  simp only [install, h]
  rfl

/-- What saving a store does to a session, apart from what it may tell. -/
structure Saved (store : Store) (s s' : Session) : Prop where
  disk : s'.disk = (store.save s.disk).2
  importers : s'.importers = s.importers
  contexts : s'.contexts = s.contexts
  stores : s'.world.stores = s.world.stores
  overflow : s'.world.overflow = s.world.overflow

theorem saved_saveStore {s : Session} {store : Store} {k : Nat}
    (h : s.world.stores[k]? = some store) : Saved store s (s.saveStore k) := by
  have hsave : s.trySave k = ((store.save s.disk).1, { s with disk := (store.save s.disk).2 }) := by
    rw [trySave, h]
  rw [saveStore, hsave]
  cases (store.save s.disk).1 <;> exact ⟨rfl, rfl, rfl, rfl, rfl⟩

/-- A session in which a context is marked as shut down. -/
def close (c : Nat) (s : Session) : Session :=
  { s with contexts := s.contexts.modify c fun ctx => { ctx with shutDown := true } }

/-- The shutdown of an open context marks it and saves its store. -/
theorem shutDown_of_open {s : Session} {c : Nat} {ctx : Context} {store : Store}
    (hctx : s.contexts[c]? = some ctx) (hopen : ctx.shutDown = false)
    (hstore : s.world.stores[ctx.store]? = some store) :
    (s.shutDown c).1 = true ∧ Saved store (s.close c) (s.shutDown c).2 := by
  have hshut : s.shutDown c = (true, (s.close c).saveStore ctx.store) := by
    simp only [shutDown, hctx, hopen, Bool.false_eq_true, if_false, close]
  rw [hshut]
  exact ⟨rfl, saved_saveStore hstore⟩

end Session

namespace Course

variable {i c σ ι : Nat} {config : Config} {d : Disk} {closed : Bool} {s : Session} {t : Course}

/-- The events are calm, or calm up to a first one that closes. -/
theorem calm_or_closing (i : Nat) (events : List Event) (t : Course) : t.Calm i events ∨
    ∃ calm closing rest, events = calm ++ closing :: rest ∧ t.Calm i calm ∧
      closing.Closes (t.run i calm) := by
  induction events generalizing t with
  | nil => exact .inl trivial
  | cons e rest ih =>
    by_cases he : e.Closes t
    · exact .inr ⟨[], e, rest, rfl, trivial, he⟩
    · rcases ih (t.after i e) with hcalm | ⟨calm, closing, more, rfl, hcalm, hcloses⟩
      · exact .inl ⟨he, hcalm⟩
      · exact .inr ⟨e :: calm, closing, more, rfl, ⟨he, hcalm⟩, hcloses⟩

/-! ## The one context -/

/-- All guards are for one context, and the first alone persists; one hook of the importer leads to
it; its settings and its parts are those that it was made of, and its store has loaded its file
once, from the disk `d`, and has recorded calls since. -/
structure Ruled (i c σ ι : Nat) (config : Config) (d : Disk) (closed : Bool) (t : Course) :
    Prop where
  guards : ∃ later, t.guards =
    { context := c, persists := true } :: List.replicate later { context := c, persists := false }
  hook : ∃ hooks : List Hook, (t.session.importers.map Importer.hooks)[i]? = some hooks ∧
    hooks.filter (·.id == instrumentationId) = [.instrumentation c]
  context : t.session.contexts[c]? =
    some { config, store := σ, instrumentor := ι, shutDown := closed }
  store : ∃ calls : List RecordedCall, t.session.world.stores[σ]? =
    some (calls.foldl (RecordedCall.into t.session.world.overflow) (config.store.load d).1)

/-- The rule that holds of all interceptors. -/
theorem unruled (s : Session) : s.Obeys fun _ _ => True := obeys_of_forall (fun _ _ => trivial) s

/-- What a host program does leaves the context what it is. -/
theorem Ruled.of_recorded {P : Nat → Nat → Prop} {more : List RecordedCall}
    (h : t.Ruled i c σ ι config d closed) (hs : Session.Recorded P t.session s more) :
    Ruled i c σ ι config d closed { t with session := s } where
  guards := h.guards
  hook := by
    rw [hs.hooks]
    exact h.hook
  context := by
    rw [hs.contexts]
    exact h.context
  store := by
    obtain ⟨calls, hcalls⟩ := h.store
    refine ⟨calls ++ more.filter (·.store == σ), ?_⟩
    rw [hs.world.stores, hs.world.overflow, hcalls, Option.map_some, List.foldl_append]

theorem Ruled.installed (h : t.Ruled i c σ ι config d closed) :
    t.session.installed? i = some c := by
  obtain ⟨hooks, hhooks, hone⟩ := h.hook
  rw [Array.getElem?_map, Option.map_eq_some_iff] at hhooks
  obtain ⟨imp, himp, rfl⟩ := hhooks
  have hfirst : imp.hooks.find? (·.id == instrumentationId) = some (.instrumentation c) := by
    rw [← List.head?_filter, hone, List.head?_cons]
  unfold installed?
  rw [himp, Option.bind_some, hfirst]

/-- Once there is a context, an installation hands out a guard that does not persist, and does no
more than say so. -/
theorem Ruled.install (h : t.Ruled i c σ ι config d closed) (other : Config) :
    t.session.install i other =
      ({ context := c, persists := false }, t.session.notify .alreadyInstalled) := by
  rw [Session.install, h.installed]

theorem Ruled.guard (h : t.Ruled i c σ ι config d closed) {k : Nat} {guard : Guard}
    (hk : t.guards[k]? = some guard) : guard = { context := c, persists := decide (k = 0) } := by
  obtain ⟨later, hguards⟩ := h.guards
  rw [hguards] at hk
  cases k with
  | zero => simpa using hk.symm
  | succ k =>
    rw [List.getElem?_cons_succ, List.getElem?_replicate] at hk
    split at hk
    next => simpa using hk.symm
    next => cases hk

theorem Ruled.guards_ne_nil (h : t.Ruled i c σ ι config d closed) : t.guards ≠ [] := by
  obtain ⟨later, hguards⟩ := h.guards
  simp [hguards]

/-! ## What events do -/

theorem Ruled.after_install (h : t.Ruled i c σ ι config d closed) (other : Config) :
    t.after i (.install other) =
      { t with
        session := t.session.notify .alreadyInstalled
        guards := t.guards ++ [{ context := c, persists := false }] } := by
  simp only [after, h.install]

theorem Ruled.after_shutDown (h : t.Ruled i c σ ι config d closed) {k : Nat}
    (hk : k < t.guards.length) :
    t.after i (.shutDown k) =
      { t with
        session := (t.session.shutDown c).2
        returned := t.returned ++ [(t.session.shutDown c).1] } := by
  have hguard : t.guards[k]? = some t.guards[k] := List.getElem?_eq_getElem hk
  have hcontext := congrArg Guard.context (h.guard hguard)
  simp only [after, hguard, hcontext]

theorem after_shutDown_of_le {k : Nat} (hk : t.guards.length ≤ k) :
    t.after i (.shutDown k) = t := by
  simp only [after, List.getElem?_eq_none hk]

/-- Dropping the first guard shuts the context down. -/
theorem Ruled.after_drop_first (h : t.Ruled i c σ ι config d closed) :
    t.after i (.drop 0) = { t with session := (t.session.shutDown c).2 } := by
  obtain ⟨later, hguards⟩ := h.guards
  simp only [after, hguards, List.getElem?_cons_zero, dropGuard, if_true]

/-- Dropping any other guard does nothing. -/
theorem Ruled.after_drop_later (h : t.Ruled i c σ ι config d closed) {k : Nat} (hk : k ≠ 0) :
    t.after i (.drop k) = t := by
  cases hguard : t.guards[k]? with
  | none => simp only [after, hguard]
  | some guard =>
    rw [h.guard hguard] at hguard
    simp only [after, hguard, dropGuard, hk, decide_false, Bool.false_eq_true, if_false]

/-- The second of two shutdowns does nothing. -/
theorem Ruled.shutDown_closed (h : t.Ruled i c σ ι config d true) :
    t.session.shutDown c = (false, t.session) := by
  rw [Session.shutDown, h.context]
  rfl

/-- The first shutdown closes the context and saves its store as it is. -/
theorem Ruled.shutDown_open {store : Store} (h : t.Ruled i c σ ι config d false)
    (hstore : t.session.world.stores[σ]? = some store) :
    (t.session.shutDown c).1 = true ∧
      (t.session.shutDown c).2.disk = (store.save t.session.disk).2 ∧
      Ruled i c σ ι config d true { t with session := (t.session.shutDown c).2 } := by
  obtain ⟨hfirst, hsaved⟩ := shutDown_of_open h.context rfl hstore
  refine ⟨hfirst, hsaved.disk, h.guards, ?_, ?_, ?_⟩
  · rw [hsaved.importers]
    exact h.hook
  · rw [hsaved.contexts, Session.close, Array.getElem?_modify, if_pos rfl, h.context]
    rfl
  · rw [hsaved.stores, hsaved.overflow]
    exact h.store

/-! ## One event -/

/-- Nothing is written by an event that does not close the context, nor by any when it is closed. -/
theorem Ruled.undisturbed (h : t.Ruled i c σ ι config d closed) (e : Event)
    (he : closed = true ∨ ¬e.Closes t) :
    (t.after i e).Ruled i c σ ι config d closed ∧
      (t.after i e).session.disk = t.session.disk ∧
      (t.after i e).returned.count true = t.returned.count true := by
  cases e with
  | install other =>
    have hnotify := h.of_recorded ((unruled t.session).notify .alreadyInstalled)
    obtain ⟨later, hlater⟩ := h.guards
    rw [h.after_install]
    refine ⟨⟨⟨later + 1, ?_⟩, hnotify.hook, hnotify.context, hnotify.store⟩, rfl, rfl⟩
    rw [hlater, List.replicate_succ', List.cons_append]
  | act fuel step =>
    obtain ⟨hstep, -⟩ := step.records_run fuel t.session (unruled t.session)
    exact ⟨h.of_recorded hstep, hstep.disk, rfl⟩
  | shutDown k =>
    by_cases hk : k < t.guards.length
    · obtain rfl : closed = true := he.resolve_right fun hopen => hopen hk
      rw [h.after_shutDown hk, h.shutDown_closed]
      exact ⟨⟨h.guards, h.hook, h.context, h.store⟩, rfl, by simp⟩
    · rw [after_shutDown_of_le (by omega)]
      exact ⟨h, rfl, rfl⟩
  | drop k =>
    by_cases hk : k = 0
    · subst hk
      obtain rfl : closed = true := he.resolve_right fun hopen => hopen ⟨rfl, h.guards_ne_nil⟩
      rw [h.after_drop_first, h.shutDown_closed]
      exact ⟨h, rfl, rfl⟩
    · rw [h.after_drop_later hk]
      exact ⟨h, rfl, rfl⟩

/-- An event that closes an open context saves the store as it is. -/
theorem Ruled.closing {store : Store} (h : t.Ruled i c σ ι config d false) {e : Event}
    (he : e.Closes t) (hstore : t.session.world.stores[σ]? = some store) :
    (t.after i e).Ruled i c σ ι config d true ∧
      (t.after i e).session.disk = (store.save t.session.disk).2 ∧
      (t.after i e).returned.count true ≤ t.returned.count true + 1 := by
  obtain ⟨hfirst, hdisk, hruled⟩ := h.shutDown_open hstore
  cases e with
  | install other => exact he.elim
  | act fuel step => exact he.elim
  | shutDown k =>
    rw [h.after_shutDown he]
    refine ⟨⟨hruled.guards, hruled.hook, hruled.context, hruled.store⟩, hdisk, ?_⟩
    exact Nat.le_of_eq (by rw [hfirst, List.count_append, List.count_singleton_self])
  | drop k =>
    obtain ⟨rfl, -⟩ := he
    rw [h.after_drop_first]
    exact ⟨hruled, hdisk, Nat.le_succ _⟩

/-! ## A course -/

/-- While nothing closes, the disk stays as it is. -/
theorem Ruled.calm (h : t.Ruled i c σ ι config d closed) {events : List Event}
    (hcalm : t.Calm i events) :
    (t.run i events).Ruled i c σ ι config d closed ∧
      (t.run i events).session.disk = t.session.disk ∧
      (t.run i events).returned.count true = t.returned.count true := by
  induction events generalizing t with
  | nil => exact ⟨h, rfl, rfl⟩
  | cons e rest ih =>
    obtain ⟨he, hrest⟩ := hcalm
    obtain ⟨hruled, hdisk, hreturned⟩ := h.undisturbed e (.inr he)
    obtain ⟨hruled, hdisk', hreturned'⟩ := ih hruled hrest
    exact ⟨hruled, hdisk'.trans hdisk, hreturned'.trans hreturned⟩

/-- Once the context is closed, the disk stays as it is. -/
theorem Ruled.after_close (h : t.Ruled i c σ ι config d true) (events : List Event) :
    (t.run i events).Ruled i c σ ι config d true ∧
      (t.run i events).session.disk = t.session.disk ∧
      (t.run i events).returned.count true = t.returned.count true := by
  induction events generalizing t with
  | nil => exact ⟨h, rfl, rfl⟩
  | cons e rest ih =>
    obtain ⟨hruled, hdisk, hreturned⟩ := h.undisturbed e (.inl rfl)
    obtain ⟨hruled, hdisk', hreturned'⟩ := ih hruled
    exact ⟨hruled, hdisk'.trans hdisk, hreturned'.trans hreturned⟩

/-! ## The first installation -/

/-- Where nothing is installed there are no guards, and so an event does no more than a host
program. -/
theorem recorded_after (h : t.guards = []) {e : Event} (he : ¬e.Installs) :
    (t.after i e).guards = [] ∧
      (∃ calls, Session.Recorded (fun _ _ => True) t.session (t.after i e).session calls) ∧
      (t.after i e).returned = t.returned := by
  cases e with
  | install other => exact absurd trivial he
  | act fuel step =>
    obtain ⟨hstep, -⟩ := step.records_run fuel t.session (unruled t.session)
    exact ⟨h, ⟨_, hstep⟩, rfl⟩
  | shutDown k =>
    rw [after_shutDown_of_le (by simp [h])]
    exact ⟨h, ⟨[], (unruled t.session).refl⟩, rfl⟩
  | drop k =>
    have hnone : t.after i (.drop k) = t := by simp only [after, h, List.getElem?_nil]
    rw [hnone]
    exact ⟨h, ⟨[], (unruled t.session).refl⟩, rfl⟩

theorem recorded_run (h : t.guards = []) {events : List Event} (he : ∀ e ∈ events, ¬e.Installs) :
    (t.run i events).guards = [] ∧
      (∃ calls, Session.Recorded (fun _ _ => True) t.session (t.run i events).session calls) ∧
      (t.run i events).returned = t.returned := by
  induction events generalizing t with
  | nil => exact ⟨h, ⟨[], (unruled t.session).refl⟩, rfl⟩
  | cons e rest ih =>
    obtain ⟨he, hrest⟩ := List.forall_mem_cons.mp he
    obtain ⟨hguards, ⟨calls, hfirst⟩, hreturned⟩ := recorded_after (i := i) h he
    obtain ⟨hguards, ⟨more, hmore⟩, hreturned'⟩ := ih hguards hrest
    exact ⟨hguards, ⟨calls ++ more, hfirst.trans hmore⟩, hreturned'.trans hreturned⟩

/-- The hooks of an importer. -/
theorem hooks_onImporter_append {s : Session} {imp : Importer} (himp : s.importers[i]? = some imp)
    (hook : Hook) :
    ((s.onImporter i fun imp => { imp with hooks := imp.hooks ++ [hook] }).importers.map
      Importer.hooks)[i]? = some (imp.hooks ++ [hook]) := by
  simp [onImporter, Array.getElem?_modify, himp]

theorem installHook_of_free {s : Session} {imp : Importer} {hook : Hook}
    (himp : s.importers[i]? = some imp) (hfree : imp.hooks.any (·.id == hook.id) = false) :
    s.installHook i hook =
      (true, s.onImporter i fun imp => { imp with hooks := imp.hooks ++ [hook] }) := by
  simp only [installHook, himp, hfree, Bool.false_eq_true, if_false]

/-- The first installation makes a context of its own. -/
theorem ruled_install {hooks : List Hook} (hguards : t.guards = [])
    (hhooks : (t.session.importers.map Importer.hooks)[i]? = some hooks)
    (hfree : ∀ hook ∈ hooks, hook.id ≠ instrumentationId) (config : Config) :
    (t.after i (.install config)).Ruled i t.session.contexts.size t.session.world.stores.size
        t.session.instrumentors.size config t.session.disk false ∧
      (t.after i (.install config)).session.disk = t.session.disk ∧
      (t.after i (.install config)).returned = t.returned := by
  rw [Array.getElem?_map, Option.map_eq_some_iff] at hhooks
  obtain ⟨imp, himp, rfl⟩ := hhooks
  have hforeign : ∀ hook ∈ imp.hooks, (hook.id == instrumentationId) = false := by
    intro hook hmem
    exact beq_false_of_ne (hfree hook hmem)
  have hfind : imp.hooks.find? (·.id == instrumentationId) = none := by
    refine List.find?_eq_none.mpr fun hook hmem => ?_
    simp [hforeign hook hmem]
  have hany : imp.hooks.any (·.id == instrumentationId) = false := by
    refine List.any_eq_false.mpr fun hook hmem => ?_
    simp [hforeign hook hmem]
  have hnone : t.session.installed? i = none := by
    simp only [installed?, himp, Option.bind_some, hfind]
  let c := t.session.contexts.size
  let made : Session := (t.session.addContext config).2
  have hmade : made.importers[i]? = some imp := himp
  have hafter : t.after i (.install config) =
      { session := (made.installHook i (.instrumentation c)).2.notify (.installed config.cacheFile)
        guards := [{ context := c, persists := true }]
        returned := t.returned } := by
    simp only [after, install_of_none hnone, hguards, List.nil_append]
    rfl
  have hhook := @installHook_of_free i made imp (.instrumentation c) hmade hany
  rw [hafter, hhook]
  refine ⟨⟨⟨0, rfl⟩, ⟨_, hooks_onImporter_append hmade _, ?_⟩, ?_, [], ?_⟩, rfl, rfl⟩
  · have hnil : imp.hooks.filter (·.id == instrumentationId) = [] :=
      List.filter_eq_nil_iff.mpr fun hook hmem => by simp [hforeign hook hmem]
    rw [List.filter_append, hnil]
    rfl
  · exact Array.getElem?_push_size
  · exact Array.getElem?_push_size

end Course

/-! ## The one write -/

/-- One write of a store to its file: the disk is what the save leaves, which is the disk before if
the store is empty, and holds the records in the file if the save succeeds; and no other regular
file than that one is touched. -/
structure Store.SavedTo (store : Store) (file : Path) (d d' : Disk) : Prop where
  saved : d' = (store.save d).2
  empty : store.entries = [] → d' = d
  written : ∀ outcome, store.entries ≠ [] → (store.save d).1 = .ok outcome →
    d'.read file = .ok (.text store.toJson.pretty)
  files : ∀ place, d'.fileAt? place ≠ d.fileAt? place → d'.locate file = .ok place

theorem Store.savedTo_save (store : Store) (d : Disk) :
    store.SavedTo store.path d (store.save d).2 where
  saved := rfl
  empty := by
    intro he
    have hempty : store.isEmpty = true := by rw [isEmpty, he, List.isEmpty_nil]
    rw [save, if_pos hempty]
  written := by
    intro outcome hne hok
    rcases hsave : store.save d with ⟨result, d'⟩
    rw [hsave] at hok
    obtain rfl : result = .ok outcome := hok
    cases outcome with
    | skippedEmpty => exact absurd (save_eq_skipped hsave).1 hne
    | written n => exact (read_save hsave).2
  files := fun place h => (locate_of_fileAt?_save h).1

/-- From the first installation to the end of a course: nothing closes the context and the disk is
as it was, or some event is the first to close it, and the disk is what the save of its store at
that moment leaves. -/
inductive Course.Written (i σ : Nat) (file : Path) (d : Disk) (t : Course) (events : List Event) :
    Prop where
  | never (calm : t.Calm i events) (disk : (t.run i events).session.disk = d)
  | once (calm : List Event) (closing : Event) (rest : List Event) (store : Store)
      (split : events = calm ++ closing :: rest) (before : t.Calm i calm)
      (first : closing.Closes (t.run i calm))
      (held : (t.run i calm).session.world.stores[σ]? = some store)
      (saved : store.SavedTo file d (t.run i events).session.disk)

namespace Course

variable {i c σ ι : Nat} {config : Config} {d : Disk} {t : Course}

/-- From the first installation on, the context stays what it is, one shutdown at most returns true,
and the file is written once at most. -/
theorem Ruled.written (h : t.Ruled i c σ ι config d false) (hreturned : t.returned.count true = 0)
    (events : List Event) :
    (∃ closed, (t.run i events).Ruled i c σ ι config d closed) ∧
      (t.run i events).returned.count true ≤ 1 ∧
      Written i σ config.cacheFile t.session.disk t events := by
  rcases calm_or_closing i events t with hcalm | ⟨calm, closing, rest, rfl, hcalm, hcloses⟩
  · obtain ⟨hruled, hdisk, hcount⟩ := h.calm hcalm
    exact ⟨⟨false, hruled⟩, by omega, .never hcalm hdisk⟩
  · obtain ⟨hruled, hdisk, hcount⟩ := h.calm hcalm
    obtain ⟨calls, hstore⟩ := hruled.store
    obtain ⟨hclosed, hsaved, hcount'⟩ := hruled.closing hcloses hstore
    obtain ⟨hend, hsame, hcount''⟩ := hclosed.after_close rest
    have hrun : t.run i (calm ++ closing :: rest) =
        ((t.run i calm).after i closing).run i rest := run_append i calm (closing :: rest) t
    let o := (t.run i calm).session.world.overflow
    have hpath : (calls.foldl (RecordedCall.into o) (config.store.load d).1).path =
        config.cacheFile :=
      (RecordedCall.foldl_into_same (f := Store.path)
        (fun s c => s.path_keep o c.label c.samples c.paramNames) calls _).trans Store.path_load
    have hwrite := Store.savedTo_save (calls.foldl (RecordedCall.into o) (config.store.load d).1)
      t.session.disk
    rw [hpath, ← hdisk, ← hsaved, ← hsame, ← hrun] at hwrite
    rw [hdisk] at hwrite
    refine ⟨⟨true, hrun ▸ hend⟩, ?_, .once calm closing rest _ rfl hcalm hcloses hstore hwrite⟩
    rw [hrun]
    omega

/-- One context for each importer, and one write for each context. Around an importer without a hook
of that identifier, in whatever order events come, nothing is written before the first installation.
That makes a context that stays what it is (`Ruled`), with every guard for it; a later installation
changes nothing but the log; one shutdown at most returns true; and the disk is as it was until the
first shutdown or the drop of the first guard, which saves the store as it is at that moment, and
stays like that (`Written`). -/
theorem one_context_one_write {s : Session} {hooks : List Hook}
    (hhooks : (s.importers.map Importer.hooks)[i]? = some hooks)
    (hfree : ∀ hook ∈ hooks, hook.id ≠ instrumentationId) {before : List Event}
    (hbefore : ∀ e ∈ before, ¬e.Installs) (config : Config) :
    let quiet := (start s).run i before
    let installed := quiet.after i (.install config)
    (quiet.guards = [] ∧ quiet.session.disk = s.disk) ∧
      ∃ c σ ι, ∀ events : List Event,
        (∃ closed, (installed.run i events).Ruled i c σ ι config s.disk closed) ∧
        (∀ other, ((installed.run i events).after i (.install other)).session =
          (installed.run i events).session.notify .alreadyInstalled) ∧
        (installed.run i events).returned.count true ≤ 1 ∧
        Written i σ config.cacheFile s.disk installed events := by
  intro quiet installed
  obtain ⟨hguards, ⟨calls, hrecorded⟩, hreturned⟩ :=
    recorded_run (i := i) (t := start s) rfl hbefore
  have hdisk : quiet.session.disk = s.disk := hrecorded.disk
  have hhooks' : (quiet.session.importers.map Importer.hooks)[i]? = some hooks := by
    rw [hrecorded.hooks]
    exact hhooks
  obtain ⟨hruled, hsame, hreturned'⟩ := ruled_install hguards hhooks' hfree config
  rw [hdisk] at hruled hsame
  have hcount : installed.returned.count true = 0 := by
    rw [hreturned', hreturned]
    rfl
  refine ⟨⟨hguards, hdisk⟩, quiet.session.contexts.size, quiet.session.world.stores.size,
    quiet.session.instrumentors.size, fun events => ?_⟩
  obtain ⟨⟨closed, hend⟩, hle, hwritten⟩ := hruled.written hcount events
  rw [hsame] at hwritten
  refine ⟨⟨closed, hend⟩, fun other => ?_, hle, hwritten⟩
  rw [hend.after_install]

/-- Install, import and call, install again and drop that guard, shut down, call again, and drop the
first guard. -/
def callAround : List Event :=
  let call : Event := .act 1 (.callBinding 0 "add" { positional := [.list []], keywords := [] })
  [.act 1 (.import 0 "m"), call, .install (.ofPaths { text := "/other" } { text := "/w" }), .drop 1,
    .shutDown 1, call, .drop 0, .shutDown 0]

/-- The call after the shutdown is in the store, and not in the file. -/
theorem one_context_one_write_call_around :
    let config : Config := .ofPaths { text := "/c" } { text := "/w" }
    let installed := (start Program.oneAdder).after 0 (.install config)
    let last := installed.run 0 callAround
    (∃ σ, Written 0 σ config.cacheFile Program.oneAdder.disk installed callAround) ∧
      last.guards = [{ context := 0, persists := true }, { context := 0, persists := false }] ∧
      last.returned = [true, false] ∧
      (last.session.world.stores[0]?.bind (·.get? "m.add")).map Record.callCount = some 2 ∧
      last.session.disk.pathExists { text := "/other" } = false ∧
      (last.session.disk.readText { text := "/c" }).toOption =
        some ("\x7b\n  \"m.add\": \x7b\n    \"callCount\": 1,\n    \"paramNames\": [\n" ++
          "      \"xs\"\n    ],\n    \"paramData\": \x7b\n      \"0\": [\n        []\n" ++
          "      ]\n    \x7d\n  \x7d\n\x7d") := by
  intro config installed last
  have hhooks : (Program.oneAdder.importers.map Importer.hooks)[0]? = some [] := by
    decide +kernel
  have hbefore : ∀ e ∈ ([] : List Event), ¬e.Installs := fun e he => nomatch he
  obtain ⟨-, c, σ, ι, h⟩ :=
    one_context_one_write hhooks (fun hook hmem => nomatch hmem) hbefore config
  obtain ⟨-, -, -, hwritten⟩ := h callAround
  exact ⟨⟨σ, hwritten⟩, by decide +kernel, by decide +kernel, by decide +kernel, by decide +kernel,
    by decide +kernel⟩

end Course

end CallSampler
