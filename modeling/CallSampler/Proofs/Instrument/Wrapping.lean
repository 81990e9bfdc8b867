import CallSampler.Proofs.Session.Recording
import CallSampler.Proofs.Text.ByteOrder

/-!
# Wrapping a module

The first evaluation of a module by an instrumentor wraps the functions to be wrapped, one after the
other, in the order of their names (`foldl_wrapFunction`, by induction on them). As no name comes
twice, each is still bound to what it was bound to at the start when its turn comes. All that
happens to the session is that the module is replaced, interceptors are numbered and refusals are
told (`Session.rewire`). A second pass finds only the functions that refuse it, and so changes no
module (`evaluate_wraps`).
-/

namespace CallSampler

/-! ## What is wrapped -/

/-- A function to be wrapped: a module binds it to a name without an underscore in front, it does
not record yet, and the module declares it. -/
structure Module.Eligible (md : Module) (name : String) (f : Callable) : Prop where
  bound : md.get? name = some (.function f)
  visible : name.toList.head? ≠ some '_'
  plain : f.isInterceptor = false
  owned : f.owner = some md.name

/-- The functions of a module that are to be wrapped, by their names. -/
def Module.targets (md : Module) : List (String × Callable) :=
  md.bindings.filterMap fun b => (wrappable? md.name b).map fun f => (b.1, f)

theorem wrappable?_eq_some_iff {moduleName name : String} {v : Value} {f : Callable} :
    wrappable? moduleName (name, v) = some f ↔ v = .function f ∧ name.toList.head? ≠ some '_' ∧
      f.isInterceptor = false ∧ f.owner = some moduleName := by
  unfold wrappable?
  cases v with
  | function g =>
    simp only [isPublic, Option.ite_none_right_eq_some, Bool.and_eq_true, decide_eq_true_eq,
      Bool.not_eq_true', beq_iff_eq, Option.some.injEq, Value.function.injEq]
    constructor
    · rintro ⟨⟨⟨hvisible, hplain⟩, howned⟩, rfl⟩
      exact ⟨rfl, hvisible, hplain, howned⟩
    · rintro ⟨rfl, hvisible, hplain, howned⟩
      exact ⟨⟨⟨hvisible, hplain⟩, howned⟩, rfl⟩
  | _ => simp

namespace Module

variable {md md' : Module} {name : String} {f : Callable} {store depth : Nat}
  {targets : List (String × Callable)}

theorem nodup_keys (md : Module) : (Entries.keys md.bindings).Nodup :=
  Entries.nodup_keys_of_ascending md.ascending

theorem get?_bindName (md : Module) (name k : String) (v : Value) :
    (md.bindName name v).get? k = if name = k then some v else md.get? k := by
  unfold get? bindName
  rw [Entries.get?, Entries.get?, Entries.find?_putSorted]
  simp only [beq_iff_eq]

/-- A module is known by what it answers. -/
theorem ext_get? (hname : md'.name = md.name) (hfile : md'.file = md.file)
    (hreadOnly : md'.readOnly = md.readOnly) (h : ∀ name, md'.get? name = md.get? name) :
    md' = md :=
  Module.ext hname hfile (Entries.ext_of_ascending md'.ascending md.ascending h) hreadOnly

theorem mem_targets : (name, f) ∈ md.targets ↔ md.Eligible name f := by
  have hbound : ∀ v, (name, v) ∈ md.bindings ↔ md.get? name = some v := fun v =>
    (Entries.find?_eq_some_iff md.nodup_keys).symm
  unfold targets
  rw [List.mem_filterMap]
  constructor
  · rintro ⟨⟨key, v⟩, hmem, hwrap⟩
    obtain ⟨g, hg, heq⟩ := Option.map_eq_some_iff.mp hwrap
    obtain ⟨rfl, rfl⟩ := Prod.mk.inj heq
    obtain ⟨rfl, hvisible, hplain, howned⟩ := wrappable?_eq_some_iff.mp hg
    exact ⟨(hbound _).mp hmem, hvisible, hplain, howned⟩
  · rintro ⟨hget, hvisible, hplain, howned⟩
    refine ⟨(name, .function f), (hbound _).mpr hget, ?_⟩
    rw [wrappable?_eq_some_iff.mpr ⟨rfl, hvisible, hplain, howned⟩]
    rfl

theorem ascending_targets (md : Module) : Entries.Ascending md.targets := by
  refine List.pairwise_map.mpr ((List.pairwise_map.mp md.ascending).filterMap _ ?_)
  intro b b' hlt t ht t' ht'
  obtain ⟨f, -, rfl⟩ := Option.map_eq_some_iff.mp ht
  obtain ⟨f', -, rfl⟩ := Option.map_eq_some_iff.mp ht'
  exact hlt

theorem mem_keys_targets : name ∈ Entries.keys md.targets ↔ ∃ f, md.Eligible name f := by
  constructor
  · intro h
    obtain ⟨⟨key, f⟩, hmem, rfl⟩ := List.mem_map.mp h
    exact ⟨f, mem_targets.mp hmem⟩
  · rintro ⟨f, hf⟩
    exact Entries.mem_keys_of_mem (mem_targets.mpr hf)

/-- The names that can be assigned, and those that are read-only. -/
def assignable (md : Module) (names : List String) : List String :=
  names.filter fun name => decide (name ∉ md.readOnly)

def refusing (md : Module) (names : List String) : List String :=
  names.filter fun name => decide (name ∈ md.readOnly)

/-! ## A module with some functions wrapped -/

/-- The same module with the given functions wrapped, save those under read-only names. -/
structure Rewired (store depth : Nat) (targets : List (String × Callable)) (md md' : Module) :
    Prop where
  name : md'.name = md.name
  file : md'.file = md.file
  readOnly : md'.readOnly = md.readOnly
  wrapped : ∀ t ∈ targets, t.1 ∉ md.readOnly → ∃ serial, md'.get? t.1 = some (.function
    (.interceptor serial (qualify md.name t.1) (t.2.parameters?.getD []) store depth t.2))
  kept : ∀ name, (name ∈ Entries.keys targets → name ∈ md.readOnly) → md'.get? name = md.get? name

theorem Rewired.nil (store depth : Nat) (md : Module) : Rewired store depth [] md md where
  name := rfl
  file := rfl
  readOnly := rfl
  wrapped := fun _ ht => nomatch ht
  kept := fun _ _ => rfl

/-- A read-only name is passed over. -/
theorem Rewired.cons_refused (h : Rewired store depth targets md md') (hro : name ∈ md.readOnly) :
    Rewired store depth ((name, f) :: targets) md md' where
  name := h.name
  file := h.file
  readOnly := h.readOnly
  wrapped := by
    intro t ht hassignable
    rcases List.mem_cons.mp ht with rfl | ht
    · exact absurd hro hassignable
    · exact h.wrapped t ht hassignable
  kept := fun key hkey => h.kept key fun hmem => hkey (List.mem_cons_of_mem _ hmem)

/-- What is wrapped first is not touched again. -/
theorem Rewired.cons_wrapped {serial : Nat} (hnew : name ∉ Entries.keys targets)
    (hassignable : name ∉ md.readOnly)
    (h : Rewired store depth targets (md.bindName name (.function
      (.interceptor serial (qualify md.name name) (f.parameters?.getD []) store depth f))) md') :
    Rewired store depth ((name, f) :: targets) md md' where
  name := h.name
  file := h.file
  readOnly := h.readOnly
  wrapped := by
    intro t ht ht'
    rcases List.mem_cons.mp ht with rfl | ht
    · refine ⟨serial, ?_⟩
      rw [h.kept name fun hmem => absurd hmem hnew, get?_bindName, if_pos rfl]
    · exact h.wrapped t ht ht'
  kept := by
    intro key hkey
    have hne : name ≠ key := by
      rintro rfl
      exact hassignable (hkey List.mem_cons_self)
    rw [h.kept key fun hmem => hkey (List.mem_cons_of_mem _ hmem), get?_bindName, if_neg hne]

/-- What a name is bound to is kept, or wrapped. -/
theorem Rewired.get?_cases (h : Rewired store depth targets md md') (name : String) :
    md'.get? name = md.get? name ∨
      ∃ f serial, (name, f) ∈ targets ∧ md'.get? name = some (.function
        (.interceptor serial (qualify md.name name) (f.parameters?.getD []) store depth f)) := by
  by_cases hkey : name ∈ Entries.keys targets → name ∈ md.readOnly
  · exact .inl (h.kept name hkey)
  · obtain ⟨hmem, hassignable⟩ := Decidable.not_imp_iff_and_not.mp hkey
    obtain ⟨⟨key, f⟩, ht, rfl⟩ := List.mem_map.mp hmem
    obtain ⟨serial, hget⟩ := h.wrapped (key, f) ht hassignable
    exact .inr ⟨f, serial, ht, hget⟩

/-- Where all names are read-only, nothing is wrapped. -/
theorem Rewired.eq_self (h : Rewired store depth targets md md')
    (hro : ∀ name ∈ Entries.keys targets, name ∈ md.readOnly) : md' = md :=
  ext_get? h.name h.file h.readOnly fun name => h.kept name (hro name)

/-- Once its functions are wrapped, a module has only those to be wrapped that refuse it. -/
theorem Rewired.eligible_iff (h : Rewired store depth md.targets md md') :
    md'.Eligible name f ↔ md.Eligible name f ∧ name ∈ md.readOnly := by
  constructor
  · intro hf
    have hro : name ∈ Entries.keys md.targets → name ∈ md.readOnly := by
      refine fun hmem => Decidable.byContradiction fun hassignable => ?_
      obtain ⟨g, hg⟩ := mem_keys_targets.mp hmem
      obtain ⟨serial, hget⟩ := h.wrapped (name, g) (mem_targets.mpr hg) hassignable
      rw [hf.bound] at hget
      cases hget
      exact Bool.noConfusion hf.plain
    have hold : md.Eligible name f :=
      ⟨h.kept name hro ▸ hf.bound, hf.visible, hf.plain, h.name ▸ hf.owned⟩
    exact ⟨hold, hro (mem_keys_targets.mpr ⟨f, hold⟩)⟩
  · rintro ⟨hf, hro⟩
    exact ⟨(h.kept name fun _ => hro).trans hf.bound, hf.visible, hf.plain, h.name ▸ hf.owned⟩

/-- The functions that a second pass finds are those that the first one could not wrap. -/
theorem Rewired.keys_targets (h : Rewired store depth md.targets md md') :
    Entries.keys md'.targets = md.refusing (Entries.keys md.targets) := by
  have hmem : ∀ name, name ∈ Entries.keys md'.targets ↔
      name ∈ md.refusing (Entries.keys md.targets) := by
    intro name
    simp only [mem_keys_targets, refusing, List.mem_filter, decide_eq_true_eq, h.eligible_iff]
    exact exists_and_right
  have hleft : (Entries.keys md'.targets).Pairwise (· < ·) := md'.ascending_targets
  have hright : (md.refusing (Entries.keys md.targets)).Pairwise (· < ·) :=
    md.ascending_targets.filter _
  have hperm := (List.perm_ext_iff_of_nodup (hleft.imp Std.ne_of_lt)
    (hright.imp Std.ne_of_lt)).mpr hmem
  exact hperm.eq_of_pairwise (fun a b _ _ hab hba => absurd hba (Std.not_gt_of_lt hab)) hleft hright

end Module

theorem qualify_inj {moduleName name name' : String}
    (h : qualify moduleName name = qualify moduleName name') : name = name' := by
  have hchars := congrArg String.toList h
  simp only [qualify, String.toList_append] at hchars
  exact String.toList_injective (List.append_cancel_left hchars)

/-- What a second pass over the same module comes to. -/
def ModuleState.again : ModuleState → ModuleState
  | .skipped reason => .skipped reason
  | .instrumented _ failed => .instrumented [] failed

/-! ## What wrapping does to a session -/

namespace Session

variable {s t : Session} {store m ι κ : Nat} {md md' : Module} {inst other : Instrumentor}

/-- A session in which a module is replaced, some interceptors were made and some notices given. -/
def rewire (m : Nat) (md : Module) (made : Nat) (notices : List Notice) (s : Session) : Session :=
  let heap := { s.world.heap with interceptors := s.world.heap.interceptors + made }
  { s with
    world := { s.world with heap, log := s.world.log ++ notices }
    modules := s.modules.modify m fun _ => md }

theorem modify_of_getElem? {α : Type} {xs : Array α} {k : Nat} {x : α} (h : xs[k]? = some x) :
    (xs.modify k fun _ => x) = xs := by
  apply Array.ext_getElem?
  intro j
  rw [Array.getElem?_modify]
  split
  next hj => rw [← hj, h, Option.map_some]
  next => rfl

theorem getElem?_rewire {made : Nat} {notices : List Notice} (h : s.modules[m]? = some md) :
    (s.rewire m md' made notices).modules[m]? = some md' := by
  rw [rewire, Array.getElem?_modify, if_pos rfl, h, Option.map_some]

theorem rewire_nothing (h : s.modules[m]? = some md) : s.rewire m md 0 [] = s := by
  simp only [rewire, Nat.add_zero, List.append_nil, modify_of_getElem? h]

theorem rewire_rewire (made more : Nat) (notices further : List Notice) (s : Session) :
    (s.rewire m md made notices).rewire m md' more further =
      s.rewire m md' (made + more) (notices ++ further) := by
  have hmodules : ((s.modules.modify m fun _ => md).modify m fun _ => md') =
      s.modules.modify m fun _ => md' := by
    apply Array.ext_getElem?
    intro j
    rw [Array.getElem?_modify, Array.getElem?_modify, Array.getElem?_modify]
    split
    next => rw [Option.map_map]; rfl
    next => rfl
  simp only [rewire, hmodules, Nat.add_assoc, List.append_assoc]

/-- What is told of a function that could not be wrapped. -/
def refusal (moduleName name : String) : Notice :=
  .wrapFailed (qualify moduleName name) { moduleName, name }

/-- A function under a read-only name stays as it is, and this is told. -/
theorem wrapFunction_refused {name : String} (hmd : s.modules[m]? = some md)
    (hro : name ∈ md.readOnly) (f : Callable) (wrapped failed : List String) :
    wrapFunction store m md.name name f ((wrapped, failed), s) =
      ((wrapped, failed ++ [qualify md.name name]), s.rewire m md 1 [refusal md.name name]) := by
  simp only [wrapFunction, onWorld, intercept, hmd, Option.map_some, Module.assign, hro, if_true,
    rewire, modify_of_getElem? hmd]
  rfl

/-- A function under any other name is replaced by an interceptor around it. -/
theorem wrapFunction_assigned {name : String} (hmd : s.modules[m]? = some md)
    (hassignable : name ∉ md.readOnly) (f : Callable) (wrapped failed : List String) :
    wrapFunction store m md.name name f ((wrapped, failed), s) =
      ((wrapped ++ [qualify md.name name], failed),
        s.rewire m (md.bindName name (.function
          (.interceptor s.world.heap.interceptors (qualify md.name name) (f.parameters?.getD [])
            store (s.world.depthOf store) f))) 1 []) := by
  simp only [wrapFunction, onWorld, intercept, hmd, Option.map_some, Module.assign, hassignable,
    if_false, rewire, List.append_nil]
  rfl

/-- Functions under distinct names are wrapped or refused one after the other. -/
theorem foldl_wrapFunction (store : Nat) {targets : List (String × Callable)}
    (hdistinct : (Entries.keys targets).Nodup) (hmd : s.modules[m]? = some md)
    (wrapped failed : List String) :
    ∃ md', md.Rewired store (s.world.depthOf store) targets md' ∧
      targets.foldl (fun done t => wrapFunction store m md.name t.1 t.2 done)
          ((wrapped, failed), s) =
        ((wrapped ++ (md.assignable (Entries.keys targets)).map (qualify md.name),
          failed ++ (md.refusing (Entries.keys targets)).map (qualify md.name)),
          s.rewire m md' targets.length
            ((md.refusing (Entries.keys targets)).map (refusal md.name))) := by
  induction targets generalizing s md wrapped failed with
  | nil => exact ⟨md, .nil _ _ _, by simp [Module.assignable, Module.refusing, rewire_nothing hmd]⟩
  | cons t rest ih =>
    obtain ⟨name, f⟩ := t
    obtain ⟨hnew, hrest⟩ := List.nodup_cons.mp hdistinct
    rw [List.foldl_cons]
    by_cases hro : name ∈ md.readOnly
    · rw [wrapFunction_refused hmd hro]
      obtain ⟨md', hmd', hfold⟩ := ih hrest (getElem?_rewire hmd) wrapped
        (failed ++ [qualify md.name name])
      refine ⟨md', hmd'.cons_refused hro, ?_⟩
      rw [hfold, rewire_rewire, Nat.add_comm 1]
      simp [Module.assignable, Module.refusing, hro]
    · rw [wrapFunction_assigned hmd hro]
      let wrapper : Callable := .interceptor s.world.heap.interceptors (qualify md.name name)
        (f.parameters?.getD []) store (s.world.depthOf store) f
      have hassigned : (s.rewire m (md.bindName name (.function wrapper)) 1 []).modules[m]? =
          some (md.bindName name (.function wrapper)) := getElem?_rewire hmd
      obtain ⟨md', hmd', hfold⟩ := ih hrest hassigned (wrapped ++ [qualify md.name name]) failed
      refine ⟨md', .cons_wrapped hnew hro hmd', ?_⟩
      have hassignable : (md.bindName name (.function wrapper)).assignable = md.assignable := rfl
      have hrefusing : (md.bindName name (.function wrapper)).refusing = md.refusing := rfl
      have hname : (md.bindName name (.function wrapper)).name = md.name := rfl
      rw [hassignable, hrefusing, hname, rewire_rewire, Nat.add_comm 1] at hfold
      rw [hfold]
      simp [Module.assignable, Module.refusing, hro]

/-- Wrapping the functions of a module replaces the module, and tells of the functions that refuse
it. -/
theorem wrapFunctions_eq (hmd : s.modules[m]? = some md) (store : Nat) :
    ∃ md', md.Rewired store (s.world.depthOf store) md.targets md' ∧
      s.wrapFunctions store m md =
        (.instrumented ((md.assignable (Entries.keys md.targets)).map (qualify md.name))
            ((md.refusing (Entries.keys md.targets)).map (qualify md.name)),
          s.rewire m md' md.targets.length
            ((md.refusing (Entries.keys md.targets)).map (refusal md.name))) := by
  obtain ⟨md', hmd', hfold⟩ := foldl_wrapFunction store
    (Entries.nodup_keys_of_ascending md.ascending_targets) hmd [] []
  refine ⟨md', hmd', ?_⟩
  have hbindings : md.bindings.foldl (wrapBinding store m md.name) (([], []), s) =
      md.targets.foldl (fun done t => wrapFunction store m md.name t.1 t.2 done)
        (([], []), s) := by
    rw [Module.targets, List.foldl_filterMap]
    congr 1
    funext done b
    unfold wrapBinding
    cases wrappable? md.name b <;> rfl
  unfold wrapFunctions
  rw [hbindings, hfold]
  rfl

/-! ## Evaluating a module -/

/-- A session in which an instrumentor remembers what it decided about a name. -/
def remember (ι : Nat) (name : String) (state : ModuleState) (s : Session) : Session :=
  { s with instrumentors := s.instrumentors.modify ι fun inst =>
      { inst with processed := Entries.set name state inst.processed } }

@[simp] theorem modules_remember (ι : Nat) (name : String) (state : ModuleState) (s : Session) :
    (s.remember ι name state).modules = s.modules := rfl

/-- A name that an instrumentor has seen is not looked at again. -/
theorem evaluate_of_seen {state : ModuleState} (hinst : s.instrumentors[ι]? = some inst)
    (hmd : s.modules[m]? = some md) (hseen : inst.state? md.name = some state) :
    s.evaluate ι m = (.alreadyProcessed, s) := by
  have hhas : Entries.has md.name inst.processed = true := by
    rw [Entries.has, ← Instrumentor.state?, hseen, Option.isSome_some]
  simp only [evaluate, hinst, hmd, hhas, if_true]

theorem evaluate_of_new (hinst : s.instrumentors[ι]? = some inst) (hmd : s.modules[m]? = some md)
    (hnew : inst.state? md.name = none) :
    s.evaluate ι m =
      match inst.rules.classify s.disk.cwd md.file with
      | some reason =>
        (.evaluated (.skipped reason), s.remember ι md.name (.skipped reason))
      | none =>
        (.evaluated (s.wrapFunctions inst.store m md).1,
          (s.wrapFunctions inst.store m md).2.remember ι md.name
            (s.wrapFunctions inst.store m md).1) := by
  have hhas : Entries.has md.name inst.processed = false := by
    rw [Entries.has, ← Instrumentor.state?, hnew, Option.isSome_none]
  simp only [evaluate, hinst, hmd, hhas, Bool.false_eq_true, if_false]
  cases inst.rules.classify s.disk.cwd md.file <;> rfl

/-- Offering a module to an instrumentor does nothing, or it is the first offer of the name: then
some of the functions to be wrapped may be wrapped, and the decision is remembered. -/
theorem evaluate_cases (ι m : Nat) (s : Session) :
    s.evaluate ι m = (.alreadyProcessed, s) ∨
      ∃ inst md md' made notices state, s.instrumentors[ι]? = some inst ∧
        s.modules[m]? = some md ∧ inst.state? md.name = none ∧
        (∃ targets, (∀ t ∈ targets, md.Eligible t.1 t.2) ∧
          md.Rewired inst.store (s.world.depthOf inst.store) targets md') ∧
        s.evaluate ι m =
          (.evaluated state, (s.rewire m md' made notices).remember ι md.name state) := by
  cases hinst : s.instrumentors[ι]? with
  | none => exact .inl (by simp only [evaluate, hinst])
  | some inst =>
    cases hmd : s.modules[m]? with
    | none => exact .inl (by simp only [evaluate, hinst, hmd])
    | some md =>
      cases hstate : inst.state? md.name with
      | some state => exact .inl (evaluate_of_seen hinst hmd hstate)
      | none =>
        right
        rw [evaluate_of_new hinst hmd hstate]
        cases inst.rules.classify s.disk.cwd md.file with
        | some reason =>
          exact ⟨inst, md, md, 0, [], .skipped reason, rfl, rfl, hstate,
            ⟨[], (fun _ ht => nomatch ht), .nil _ _ md⟩, by rw [rewire_nothing hmd]⟩
        | none =>
          obtain ⟨md', hmd', hwrap⟩ := wrapFunctions_eq hmd inst.store
          exact ⟨inst, md, md', _, _, _, rfl, rfl, hstate,
            ⟨md.targets, fun _ ht => Module.mem_targets.mp ht, hmd'⟩, by rw [hwrap]⟩

/-- Evaluating a module touches no other instrumentor, and only modules, heap and log besides. -/
theorem evaluate_rest (ι m : Nat) (s : Session) :
    (∀ κ, κ ≠ ι → (s.evaluate ι m).2.instrumentors[κ]? = s.instrumentors[κ]?) ∧
      (s.evaluate ι m).2.disk = s.disk ∧ (s.evaluate ι m).2.importers = s.importers ∧
      (s.evaluate ι m).2.contexts = s.contexts ∧ (s.evaluate ι m).2.sightings = s.sightings := by
  rcases evaluate_cases ι m s with heq | ⟨inst, md, md', made, notices, state, -, -, -, -, heq⟩
  · rw [heq]
    exact ⟨fun _ _ => rfl, rfl, rfl, rfl, rfl⟩
  · rw [heq]
    refine ⟨fun κ hne => ?_, rfl, rfl, rfl, rfl⟩
    rw [remember, Array.getElem?_modify, if_neg (Ne.symm hne)]
    rfl

/-- What the first evaluation of a module leaves. -/
inductive Decided (inst : Instrumentor) (m : Nat) (md : Module) (s s' : Session) :
    ModuleState → Prop where
  /-- The rules skip the module, and it stays as it is. -/
  | skipped {reason : SkipReason} (rule : inst.rules.classify s.disk.cwd md.file = some reason)
    (modules : s'.modules = s.modules) (log : s'.world.log = s.world.log) :
    Decided inst m md s s' (.skipped reason)
  /-- The functions under the names `done` are wrapped, and those under the names `refused` are told
  of. -/
  | instrumented {done refused : List String} {md' : Module}
    (rule : inst.rules.classify s.disk.cwd md.file = none)
    (mem_done : ∀ name, name ∈ done ↔ (∃ f, md.Eligible name f) ∧ name ∉ md.readOnly)
    (mem_refused : ∀ name, name ∈ refused ↔ (∃ f, md.Eligible name f) ∧ name ∈ md.readOnly)
    (disjoint : ∀ label ∈ done.map (qualify md.name), label ∉ refused.map (qualify md.name))
    (done_ascending : done.Pairwise fun name name' => utf8 name < utf8 name')
    (refused_ascending : refused.Pairwise fun name name' => utf8 name < utf8 name')
    (log : s'.world.log = s.world.log ++ refused.map (refusal md.name))
    (modules : s'.modules = s.modules.modify m fun _ => md')
    (same : md'.name = md.name ∧ md'.file = md.file ∧ md'.readOnly = md.readOnly)
    (wrapped : ∀ name f, md.Eligible name f → name ∉ md.readOnly → ∃ serial, md'.get? name = some
      (.function (.interceptor serial (qualify md.name name) (f.parameters?.getD []) inst.store
        (s.world.depthOf inst.store) f)))
    (others : ∀ name, name ∉ done → md'.get? name = md.get? name) :
    Decided inst m md s s'
      (.instrumented (done.map (qualify md.name)) (refused.map (qualify md.name)))

/-- The first evaluation by an instrumentor decides about a module and touches no store. -/
theorem decided_evaluate (hinst : s.instrumentors[ι]? = some inst)
    (hmd : s.modules[m]? = some md) (hnew : inst.state? md.name = none) :
    ∃ state, (s.evaluate ι m).1 = .evaluated state ∧
      Decided inst m md s (s.evaluate ι m).2 state ∧
      (s.evaluate ι m).2.world.stores = s.world.stores := by
  rw [evaluate_of_new hinst hmd hnew]
  cases hrule : inst.rules.classify s.disk.cwd md.file with
  | some reason => exact ⟨.skipped reason, rfl, .skipped hrule rfl rfl, rfl⟩
  | none =>
    obtain ⟨md', hmd', hwrap⟩ := wrapFunctions_eq hmd inst.store
    simp only [hwrap]
    have hascending : (Entries.keys md.targets).Pairwise fun a b => utf8 a < utf8 b :=
      md.ascending_targets.imp utf8_lt_utf8
    have hdone : ∀ name, name ∈ md.assignable (Entries.keys md.targets) ↔
        (∃ f, md.Eligible name f) ∧ name ∉ md.readOnly := by
      simp [Module.assignable, Module.mem_keys_targets]
    have hrefused : ∀ name, name ∈ md.refusing (Entries.keys md.targets) ↔
        (∃ f, md.Eligible name f) ∧ name ∈ md.readOnly := by
      simp [Module.refusing, Module.mem_keys_targets]
    refine ⟨_, rfl, .instrumented hrule hdone hrefused ?_ (hascending.filter _)
      (hascending.filter _) rfl rfl ⟨hmd'.name, hmd'.file, hmd'.readOnly⟩ ?_ ?_, rfl⟩
    · intro label hlabel hlabel'
      obtain ⟨name, hname, rfl⟩ := List.mem_map.mp hlabel
      obtain ⟨name', hname', heq⟩ := List.mem_map.mp hlabel'
      obtain rfl := qualify_inj heq
      exact ((hdone _).mp hname).2 ((hrefused _).mp hname').2
    · exact fun name f hf => hmd'.wrapped (name, f) (Module.mem_targets.mpr hf)
    · intro name hname
      refine hmd'.kept name fun hmem => Decidable.byContradiction fun hassignable => ?_
      exact hname ((hdone name).mpr ⟨Module.mem_keys_targets.mp hmem, hassignable⟩)

/-- Another instrumentor finds nothing to wrap in a module whose functions are wrapped. -/
theorem evaluate_of_rewired {store depth : Nat} (hmd' : md.Rewired store depth md.targets md')
    (hinst : t.instrumentors[κ]? = some other) (hmodule : t.modules[m]? = some md')
    (hnew : other.state? md.name = none)
    (hrule : other.rules.classify t.disk.cwd md.file = none) :
    (t.evaluate κ m).1 =
        .evaluated (.instrumented [] ((md.refusing (Entries.keys md.targets)).map
          (qualify md.name))) ∧
      (t.evaluate κ m).2.modules = t.modules ∧
      (t.evaluate κ m).2.world.stores = t.world.stores := by
  have hro : ∀ name ∈ Entries.keys md'.targets, name ∈ md'.readOnly := by
    intro name hname
    rw [hmd'.keys_targets] at hname
    rw [hmd'.readOnly]
    exact of_decide_eq_true (List.mem_filter.mp hname).2
  have hnothing : md'.assignable (Entries.keys md'.targets) = [] :=
    List.filter_eq_nil_iff.mpr fun name hname => by simp [hro name hname]
  have hall : md'.refusing (Entries.keys md'.targets) = Entries.keys md'.targets :=
    List.filter_eq_self.mpr fun name hname => by simp [hro name hname]
  obtain ⟨md'', hmd'', hwrap⟩ := wrapFunctions_eq hmodule other.store
  obtain rfl := hmd''.eq_self hro
  rw [hnothing, hall, hmd'.keys_targets, hmd'.name] at hwrap
  rw [← hmd'.name] at hnew
  rw [← hmd'.file] at hrule
  rw [evaluate_of_new hinst hmodule hnew, hrule]
  simp only [hwrap]
  exact ⟨rfl, modify_of_getElem? hmodule, rfl⟩

/-- Wrapping touches exactly the functions to be wrapped. The first evaluation of a module by an
instrumentor leaves it as it is if the rules skip it; otherwise the functions to be wrapped are
listed in two lists, ascending by the bytes of their names and without a name in common: those under
read-only names are told of, each of the others is replaced by an interceptor around it, and
everything else that the module binds stays (`Decided`). No store changes. Evaluating the module
again as it is then, in any session with the same working directory and by any instrumentor with
the same rules that has not seen the name, wraps nothing and changes no module and no store. -/
theorem evaluate_wraps (hinst : s.instrumentors[ι]? = some inst) (hmd : s.modules[m]? = some md)
    (hnew : inst.state? md.name = none) :
    ∃ state, (s.evaluate ι m).1 = .evaluated state ∧
      Decided inst m md s (s.evaluate ι m).2 state ∧
      (s.evaluate ι m).2.world.stores = s.world.stores ∧
      ∀ (t : Session) (κ : Nat) (other : Instrumentor),
        t.modules[m]? = (s.evaluate ι m).2.modules[m]? → t.disk.cwd = s.disk.cwd →
        t.instrumentors[κ]? = some other → other.rules = inst.rules →
        other.state? md.name = none →
          (t.evaluate κ m).1 = .evaluated state.again ∧
          (t.evaluate κ m).2.modules = t.modules ∧
          (t.evaluate κ m).2.world.stores = t.world.stores := by
  obtain ⟨state, hstate, hdecided, hstores⟩ := decided_evaluate hinst hmd hnew
  refine ⟨state, hstate, hdecided, hstores, fun t κ other hmodule hcwd hother hrules hfresh => ?_⟩
  have hfirst := evaluate_of_new hinst hmd hnew
  cases hrule : inst.rules.classify s.disk.cwd md.file with
  | some reason =>
    rw [hrule] at hfirst
    rw [hfirst] at hstate hmodule
    cases hstate
    have hmodule : t.modules[m]? = some md := hmodule.trans hmd
    rw [evaluate_of_new hother hmodule hfresh, hrules, hcwd, hrule]
    exact ⟨rfl, rfl, rfl⟩
  | none =>
    obtain ⟨md', hmd', hwrap⟩ := wrapFunctions_eq hmd inst.store
    rw [hrule] at hfirst
    simp only [hwrap] at hfirst
    rw [hfirst] at hstate hmodule
    cases hstate
    have hmodule : t.modules[m]? = some md' := by
      rw [hmodule, modules_remember, getElem?_rewire hmd]
    exact evaluate_of_rewired hmd' hother hmodule hfresh (by rw [hrules, hcwd, hrule])

end Session

/-- A module that binds a value and functions of its own, of another module and of none, among them
a hidden one, a read-only one, a method and one that records. -/
def Module.mixed : Module :=
  let native (serial : Nat) (name : String) (owner : Option String) : Callable :=
    .native serial { name, owner, parameters := some ["x"] } .echo
  let bindings : List (String × Value) :=
    [("_hidden", .function (native 0 "hidden" (some "m"))),
      ("add", .function (native 1 "add" (some "m"))),
      ("borrowed", .function (native 2 "borrowed" (some "lib"))),
      ("free", .function (native 3 "free" none)),
      ("locked", .function (native 4 "locked" (some "m"))),
      ("method", .function (.bound 5 .none (native 1 "add" (some "m")))),
      ("size", .int 3),
      ("traced", .function (.interceptor 0 "m.traced" ["x"] 0 10 (native 6 "traced" (some "m"))))]
  { name := "m"
    file := some { text := "/w/m.py" }
    bindings := Entries.sorted bindings
    ascending := Entries.ascending_sorted bindings
    readOnly := ["locked"] }

/-- An instrumentor of a workspace that has seen nothing. -/
def Instrumentor.blank : Instrumentor :=
  { rules := .ofConfig { text := "/" } (.ofPaths { text := "/c" } { text := "/w" })
    store := 0
    processed := [] }

/-- A session with that module and two instrumentors with the same rules. -/
def Session.withMixed : Session :=
  let start := Session.empty (Disk.empty [])
  { start with
    world := { start.world with heap := { Heap.empty with functions := 7, interceptors := 1 } }
    modules := #[Module.mixed]
    instrumentors := #[Instrumentor.blank, Instrumentor.blank] }

theorem Session.evaluate_wraps_mixed :
    let s := withMixed
    let again := (s.evaluate 0 0).2.evaluate 1 0
    (∃ state, (s.evaluate 0 0).1 = .evaluated state ∧
      Decided .blank 0 .mixed s (s.evaluate 0 0).2 state ∧ again.1 = .evaluated state.again) ∧
      (s.evaluate 0 0).1 =
        .evaluated (.instrumented ["m.add", "m.method"] ["m.locked"]) ∧
      again.1 = .evaluated (.instrumented [] ["m.locked"]) := by
  intro s again
  have hinst : s.instrumentors[0]? = some .blank := rfl
  have hmd : s.modules[0]? = some .mixed := rfl
  have hnew : Instrumentor.blank.state? Module.mixed.name = none := rfl
  obtain ⟨state, hstate, hdecided, -, hagain⟩ := evaluate_wraps hinst hmd hnew
  obtain ⟨hothers, hdisk, -⟩ := evaluate_rest 0 0 s
  obtain ⟨hsecond, -⟩ := hagain (s.evaluate 0 0).2 1 .blank rfl (congrArg Disk.cwd hdisk)
    (hothers 1 Nat.one_ne_zero) rfl hnew
  exact ⟨⟨state, hstate, hdecided, hsecond⟩, by decide +kernel, by decide +kernel⟩

end CallSampler
