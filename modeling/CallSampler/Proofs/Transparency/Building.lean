import CallSampler.Module
import CallSampler.Proofs.Transparency.Calls

/-!
# Building without interceptors

A literal builds the same from a heap with interceptors and without: the one thing that it takes
over from the heap is the value of a variable (`builds_build`). It has to be tame: no object in it
calls functions when it is asked for its attributes, and no key of a dict can be a function.
-/

namespace CallSampler

/-! ## Tame literals -/

/-- The value is free of functions whatever the variables hold. -/
def Literal.IsKey (l : Literal) : Prop := ∀ h, (l.build h).1.FunctionFree

mutual

/-- No object in the literal calls functions, and no key of a dict in it can be a function. -/
def Literal.Tame : Literal → Prop
  | .list items => Literal.TameItems items
  | .tuple items => Literal.TameItems items
  | .dict assignments => Literal.TamePairs assignments
  | .record _ assignments => Literal.TameNamed assignments
  | .object _ _ _ attributes => Literal.TameAttributes attributes
  | .function _ body => Literal.TameBody body
  | .wrapped _ _ inner => inner.Tame
  | _ => True

def Literal.TameItems : List Literal → Prop
  | [] => True
  | l :: rest => l.Tame ∧ Literal.TameItems rest

def Literal.TamePairs : List (Literal × Literal) → Prop
  | [] => True
  | (k, l) :: rest => k.IsKey ∧ k.Tame ∧ l.Tame ∧ Literal.TamePairs rest

def Literal.TameNamed : List (String × Literal) → Prop
  | [] => True
  | (_, l) :: rest => l.Tame ∧ Literal.TameNamed rest

def Literal.TameAttributes : Attributes Literal → Prop
  | .absent => True
  | .listed entries => Literal.TameNamed entries
  | .panics _ => True
  | .calls _ _ => False

def Literal.TameBody : Body Literal → Prop
  | .give l => l.Tame
  | .append l => l.Tame
  | .insert _ l => l.Tame
  | .andThen first second => Literal.TameBody first ∧ Literal.TameBody second
  | .pipe first second => Literal.TameBody first ∧ Literal.TameBody second
  | .recover first second => Literal.TameBody first ∧ Literal.TameBody second
  | .branch test yes no =>
    Literal.TameBody test ∧ Literal.TameBody yes ∧ Literal.TameBody no
  | _ => True

end

/-! ## Builders -/

/-- On the heap without interceptors `q` makes what `p` makes on the heap, less its interceptors,
and no object that calls functions is made. -/
def Builds {α β : Type} (f : α → β) (p : Heap → α × Heap) (q : Heap → β × Heap) : Prop :=
  ∀ h : Heap, q h.bare = (p h).map f Heap.bare ∧ (h.Quiet → (p h).2.Quiet)

section Builders

variable {α β γ δ : Type} {f : α → β} {g : γ → δ}

theorem builds_same (a : α) : Builds f (fun h => (a, h)) fun h => (f a, h) :=
  fun _ => ⟨rfl, id⟩

theorem Builds.bind {p : Heap → α × Heap} {q : Heap → β × Heap} {k : α → Heap → γ × Heap}
    {l : β → Heap → δ × Heap} (hp : Builds f p q) (hk : ∀ a, Builds g (k a) (l (f a))) :
    Builds g (fun h => k (p h).1 (p h).2) fun h => l (q h).1 (q h).2 := by
  intro h
  obtain ⟨hq, hquiet⟩ := hp h
  obtain ⟨hl, hquiet'⟩ := hk (p h).1 (p h).2
  refine ⟨?_, fun hh => hquiet' (hquiet hh)⟩
  dsimp only
  rw [hq, Prod.map, hl]

/-- Something that is done to the heap and makes no objects. -/
theorem builds_of_objects {p : Heap → α × Heap} {q : Heap → β × Heap}
    (h : ∀ heap : Heap, q heap.bare = (p heap).map f Heap.bare)
    (ho : ∀ heap : Heap, (p heap).2.objects = heap.objects) : Builds f p q := by
  refine fun heap => ⟨h heap, fun hq => ?_⟩
  rw [Heap.Quiet, ho]
  exact hq

theorem builds_newList (items : List Value) :
    Builds Value.bare (Heap.newList items) (Heap.newList (items.map Value.bare)) :=
  builds_of_objects (fun h => h.newList_bare items) fun _ => rfl

theorem builds_newDict {assignments : List (Value × Value)}
    (hk : ∀ a ∈ assignments, a.1.FunctionFree) :
    Builds Value.bare (Heap.newDict assignments) (Heap.newDict (assignments.map bareEntry)) :=
  builds_of_objects (fun h => h.newDict_bare hk) fun _ => rfl

theorem builds_newObject {o : Object} (ho : o.Quiet) :
    Builds Value.bare (Heap.newObject o) (Heap.newObject o.bare) := by
  refine fun h => ⟨h.newObject_bare o, fun hq o' ho' => ?_⟩
  rcases Array.mem_push.mp ho' with ho' | rfl
  · exact hq o' ho'
  · exact ho

theorem builds_record (typeName : String) (entries : List (String × Value)) :
    Builds Value.bare
      (Heap.newObject
        { typeName, attributes := .listed (Entries.ofAssignments entries), callable := false
          description := .byType })
      (Heap.newObject
        { typeName, attributes := .listed (Entries.ofAssignments (bareNamed entries))
          callable := false, description := .byType }) := by
  rw [bareNamed, Entries.ofAssignments_map_value]
  exact builds_newObject trivial

theorem builds_apply (layer : Wrapping) (v : Value) :
    Builds Value.bare (layer.apply v) (layer.apply v.bare) := by
  cases layer with
  | list => exact builds_newList [v]
  | tuple => exact fun _ => ⟨rfl, id⟩
  | dict =>
    have hk : ∀ a ∈ [(Value.str "k", v)], a.1.FunctionFree := List.forall_mem_singleton.mpr trivial
    exact builds_newDict hk
  | object =>
    exact builds_newObject (o :=
      { typeName := "N", attributes := .listed [("k", v)], callable := false
        description := .byType }) trivial

theorem builds_applyMany (layer : Wrapping) (n : Nat) (v : Value) :
    Builds Value.bare (layer.applyMany n v) (layer.applyMany n v.bare) := by
  induction n generalizing v with
  | zero => exact builds_same v
  | succ n ih => exact (builds_apply layer v).bind ih

end Builders

/-! ## Literals -/

namespace Literal

/-- Every key of the built entries is free of functions. -/
theorem functionFree_buildPairs {assignments : List (Literal × Literal)}
    (ht : TamePairs assignments) (h : Heap) :
    ∀ a ∈ (buildPairs assignments h).1, a.1.FunctionFree := by
  induction assignments generalizing h with
  | nil => simp [buildPairs]
  | cons a rest ih =>
    obtain ⟨hk, -, -, hrest⟩ := ht
    exact List.forall_mem_cons.mpr ⟨hk h, ih hrest _⟩

mutual

/-- A tame literal builds the same with interceptors and without. -/
theorem builds_build : ∀ l : Literal, l.Tame → Builds Value.bare l.build l.build
  | .none, _ | .bool _, _ | .int _, _ | .float _, _ | .str _, _ => fun _ => ⟨rfl, id⟩
  | .list items, ht => (builds_buildItems items ht).bind builds_newList
  | .tuple items, ht => fun h => by
    obtain ⟨hitems, hquiet⟩ := builds_buildItems items ht h
    refine ⟨?_, hquiet⟩
    simp [build, hitems, Value.bare]
  | .dict assignments, ht => fun h => by
    obtain ⟨hes, hquiet⟩ := builds_buildPairs assignments ht h
    obtain ⟨hdict, hquiet'⟩ := builds_newDict (functionFree_buildPairs ht h)
      (buildPairs assignments h).2
    refine ⟨?_, fun hh => hquiet' (hquiet hh)⟩
    rw [build, hes]
    exact hdict
  | .record typeName assignments, ht => fun h => by
    obtain ⟨hes, hquiet⟩ := builds_buildNamed assignments ht h
    obtain ⟨hrecord, hquiet'⟩ := builds_record typeName (buildNamed assignments h).1
      (buildNamed assignments h).2
    refine ⟨?_, fun hh => hquiet' (hquiet hh)⟩
    rw [build, hes]
    exact hrecord
  | .object typeName callable description attributes, ht => fun h => by
    obtain ⟨has, hquiet⟩ := builds_buildAttributes attributes ht h
    have ho : Object.Quiet
        { typeName, attributes := (buildAttributes attributes h).1, callable, description } := by
      cases attributes <;> trivial
    obtain ⟨hobject, hquiet'⟩ := builds_newObject ho (buildAttributes attributes h).2
    refine ⟨?_, fun hh => hquiet' (hquiet hh)⟩
    rw [build, has]
    exact hobject
  | .function signature body, ht => fun h => by
    obtain ⟨hbody, hquiet⟩ := builds_buildBody body ht h
    refine ⟨?_, hquiet⟩
    rw [build, hbody]
    rfl
  | .variable name, _ => fun h => by
    refine ⟨?_, id⟩
    simp only [build, Heap.lookup?_bare, Prod.map]
    cases h.lookup? name <;> rfl
  | .wrapped layer count inner, ht => (builds_build inner ht).bind (builds_applyMany layer count)

theorem builds_buildItems : ∀ items : List Literal, TameItems items →
    Builds (List.map Value.bare) (buildItems items) (buildItems items)
  | [], _ => fun _ => ⟨rfl, id⟩
  | l :: rest, ht => fun h => by
    obtain ⟨hl, hquiet⟩ := builds_build l ht.1 h
    obtain ⟨hrest, hquiet'⟩ := builds_buildItems rest ht.2 (l.build h).2
    refine ⟨?_, fun hh => hquiet' (hquiet hh)⟩
    rw [buildItems, hl]
    simp only [Prod.map, hrest, buildItems, List.map_cons]

theorem builds_buildPairs : ∀ assignments : List (Literal × Literal), TamePairs assignments →
    Builds (List.map bareEntry) (buildPairs assignments) (buildPairs assignments)
  | [], _ => fun _ => ⟨rfl, id⟩
  | (k, l) :: rest, ht => fun h => by
    obtain ⟨-, hkt, hlt, hrt⟩ := ht
    obtain ⟨hk, hquiet⟩ := builds_build k hkt h
    obtain ⟨hl, hquiet'⟩ := builds_build l hlt (k.build h).2
    obtain ⟨hrest, hquiet''⟩ := builds_buildPairs rest hrt (l.build (k.build h).2).2
    refine ⟨?_, fun hh => hquiet'' (hquiet' (hquiet hh))⟩
    rw [buildPairs, hk]
    simp only [Prod.map, hl, hrest, buildPairs, List.map_cons, bareEntry]

theorem builds_buildNamed : ∀ assignments : List (String × Literal), TameNamed assignments →
    Builds bareNamed (buildNamed assignments) (buildNamed assignments)
  | [], _ => fun _ => ⟨rfl, id⟩
  | (name, l) :: rest, ht => fun h => by
    obtain ⟨hl, hquiet⟩ := builds_build l ht.1 h
    obtain ⟨hrest, hquiet'⟩ := builds_buildNamed rest ht.2 (l.build h).2
    refine ⟨?_, fun hh => hquiet' (hquiet hh)⟩
    rw [buildNamed, hl]
    simp only [Prod.map, hrest, buildNamed, bareNamed, List.map_cons]

theorem builds_buildAttributes : ∀ attributes : Attributes Literal, TameAttributes attributes →
    Builds Attributes.bare (buildAttributes attributes) (buildAttributes attributes)
  | .absent, _ | .panics _, _ => fun _ => ⟨rfl, id⟩
  | .listed entries, ht => fun h => by
    obtain ⟨hes, hquiet⟩ := builds_buildNamed entries ht h
    refine ⟨?_, hquiet⟩
    rw [buildAttributes, hes]
    rfl
  | .calls _ _, ht => ht.elim

theorem builds_buildBody : ∀ body : Body Literal, TameBody body →
    Builds Callable.bareBody (buildBody body) (buildBody body)
  | .nothing, _ | .echo, _ | .argument _, _ | .count, _ | .collect, _ | .sum _, _ | .fail _, _
  | .panic _, _ | .item _, _ | .entry _, _ | .assign _, _ | .call _, _ | .apply, _ | .bind, _ =>
    fun _ => ⟨rfl, id⟩
  | .give l, ht | .append l, ht | .insert _ l, ht => fun h => by
    obtain ⟨hl, hquiet⟩ := builds_build l ht h
    refine ⟨?_, hquiet⟩
    rw [buildBody, hl]
    rfl
  | .andThen first second, ht | .pipe first second, ht | .recover first second, ht => fun h => by
    obtain ⟨h₁, hquiet⟩ := builds_buildBody first ht.1 h
    obtain ⟨h₂, hquiet'⟩ := builds_buildBody second ht.2 (buildBody first h).2
    refine ⟨?_, fun hh => hquiet' (hquiet hh)⟩
    rw [buildBody, h₁]
    simp only [Prod.map, h₂, buildBody, Callable.bareBody]
  | .branch test yes no, ht => fun h => by
    obtain ⟨h₁, hquiet⟩ := builds_buildBody test ht.1 h
    obtain ⟨h₂, hquiet'⟩ := builds_buildBody yes ht.2.1 (buildBody test h).2
    obtain ⟨h₃, hquiet''⟩ := builds_buildBody no ht.2.2 (buildBody yes (buildBody test h).2).2
    refine ⟨?_, fun hh => hquiet'' (hquiet' (hquiet hh))⟩
    rw [buildBody, h₁]
    simp only [Prod.map, h₂, h₃, buildBody, Callable.bareBody]

end

end Literal

/-! ## Modules -/

/-- The module with the interceptors off whatever it binds. -/
def Module.bare (m : Module) : Module :=
  { m with
    bindings := bareNamed m.bindings
    ascending := by
      rw [Entries.Ascending, bareNamed, Entries.keys_map_value]
      exact m.ascending }

namespace Module

variable (m : Module)

theorem get?_bare (name : String) : m.bare.get? name = (m.get? name).map Value.bare :=
  Entries.find?_map_value _ _ _

theorem bindName_bare (name : String) (v : Value) :
    m.bare.bindName name v.bare = (m.bindName name v).bare :=
  Module.ext rfl rfl (Entries.putSorted_map_value _ _ _ _) rfl

/-- Binding what differs in interceptors only does not show. -/
theorem bare_bindName {name : String} {v w : Value} (hv : m.get? name = some v)
    (hw : w.bare = v.bare) : (m.bindName name w).bare = m.bare := by
  have hget : m.bare.get? name = some w.bare := by rw [get?_bare, hv, hw, Option.map_some]
  rw [← bindName_bare]
  exact Module.ext rfl rfl (Entries.putSorted_of_find? m.bare.ascending hget) rfl

end Module

namespace Blueprint

/-- Every literal in the description is tame. -/
structure Tame (b : Blueprint) : Prop where
  definitions : ∀ d ∈ b.definitions, Literal.TameBody d.body
  bindings : ∀ e ∈ b.bindings, e.2.Tame

/-- The first function of a module is built and bound before all others. -/
theorem define_cons (m : Module) (d : Definition) (rest : List Definition) (h : Heap) :
    define m (d :: rest) h =
      define (m.bindName d.name (.function ((Literal.buildBody d.body h).2.newNative
        { name := d.name, owner := some m.name, parameters := some d.parameters }
        (Literal.buildBody d.body h).1).1)) rest
        ((Literal.buildBody d.body h).2.newNative
          { name := d.name, owner := some m.name, parameters := some d.parameters }
          (Literal.buildBody d.body h).1).2 := rfl

theorem builds_define {definitions : List Definition}
    (ht : ∀ d ∈ definitions, Literal.TameBody d.body) (m : Module) :
    Builds Module.bare (define m definitions) (define m.bare definitions) := by
  induction definitions generalizing m with
  | nil => exact builds_same m
  | cons d rest ih =>
    obtain ⟨hd, hrest⟩ := List.forall_mem_cons.mp ht
    intro h
    obtain ⟨hbody, hquiet⟩ := Literal.builds_buildBody d.body hd h
    rw [define_cons, define_cons, hbody]
    obtain ⟨hdefine, hquiet'⟩ := ih hrest _ _
    refine ⟨?_, fun hh => hquiet' (hquiet hh)⟩
    rw [← hdefine, ← Module.bindName_bare]
    rfl

theorem builds_bindAll {bindings : List (String × Literal)} (ht : ∀ e ∈ bindings, e.2.Tame)
    (m : Module) : Builds Module.bare (bindAll m bindings) (bindAll m.bare bindings) := by
  induction bindings generalizing m with
  | nil => exact builds_same m
  | cons e rest ih =>
    obtain ⟨he, hrest⟩ := List.forall_mem_cons.mp ht
    intro h
    obtain ⟨hv, hquiet⟩ := Literal.builds_build e.2 he h
    have hcons : ∀ (m : Module) (h : Heap), bindAll m (e :: rest) h =
        bindAll (m.bindName e.1 (e.2.build h).1) rest (e.2.build h).2 := fun _ _ => rfl
    rw [hcons, hcons, hv]
    obtain ⟨hbind, hquiet'⟩ := ih hrest (m.bindName e.1 (e.2.build h).1) (e.2.build h).2
    refine ⟨?_, fun hh => hquiet' (hquiet hh)⟩
    rw [← hbind, ← Module.bindName_bare]
    rfl

/-- A tame module builds the same with interceptors and without. -/
theorem builds_build {b : Blueprint} (ht : b.Tame) : Builds Module.bare b.build b.build := by
  intro h
  obtain ⟨hdefine, hquiet⟩ := builds_define ht.definitions (.blank b.name b.file) h
  obtain ⟨hbind, hquiet'⟩ := builds_bindAll ht.bindings
    (define (.blank b.name b.file) b.definitions h).1
    (define (.blank b.name b.file) b.definitions h).2
  refine ⟨?_, fun hh => hquiet' (hquiet hh)⟩
  have hblank : (Module.blank b.name b.file).bare = .blank b.name b.file := rfl
  rw [hblank] at hdefine
  unfold build
  rw [hdefine]
  simp only [Prod.map, hbind]
  rfl

end Blueprint

end CallSampler
