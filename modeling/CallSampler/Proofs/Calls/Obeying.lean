import CallSampler.Module
import CallSampler.Proofs.Entries
import CallSampler.World

/-!
# What interceptors record to

An interceptor holds the number of a store and a depth limit, and keeps them for good. A rule about
the two that holds of all the interceptors in a heap holds of all that can be had from it: neither
building values nor changing lists, dicts and variables makes an interceptor (`Building.build`).
-/

namespace CallSampler

/-! ## Rules -/

mutual

/-- Every interceptor in a value obeys a rule about its store and its depth limit. -/
def Value.Obeys (P : Nat → Nat → Prop) : Value → Prop
  | .function f => f.Obeys P
  | .tuple items => Value.ObeyItems P items
  | _ => True

def Value.ObeyItems (P : Nat → Nat → Prop) : List Value → Prop
  | [] => True
  | v :: rest => v.Obeys P ∧ Value.ObeyItems P rest

def Callable.Obeys (P : Nat → Nat → Prop) : Callable → Prop
  | .native _ _ body => Callable.ObeysBody P body
  | .bound _ receiver target => receiver.Obeys P ∧ target.Obeys P
  | .interceptor _ _ _ store maxDepth target => P store maxDepth ∧ target.Obeys P

def Callable.ObeysBody (P : Nat → Nat → Prop) : Body Value → Prop
  | .give v => v.Obeys P
  | .append item => item.Obeys P
  | .insert _ item => item.Obeys P
  | .andThen first second => Callable.ObeysBody P first ∧ Callable.ObeysBody P second
  | .pipe first second => Callable.ObeysBody P first ∧ Callable.ObeysBody P second
  | .recover first second => Callable.ObeysBody P first ∧ Callable.ObeysBody P second
  | .branch test yes no =>
    Callable.ObeysBody P test ∧ Callable.ObeysBody P yes ∧ Callable.ObeysBody P no
  | _ => True

end

/-- So does every interceptor in named values. -/
def ObeyNamed (P : Nat → Nat → Prop) (entries : List (String × Value)) : Prop :=
  ∀ e ∈ entries, e.2.Obeys P

def Attributes.Obeys (P : Nat → Nat → Prop) : Attributes Value → Prop
  | .listed entries => ObeyNamed P entries
  | .calls _ arguments => ObeyNamed P arguments
  | _ => True

structure Heap.Obeys (P : Nat → Nat → Prop) (h : Heap) : Prop where
  lists : ∀ items ∈ h.lists, ∀ v ∈ items, v.Obeys P
  dicts : ∀ entries ∈ h.dicts, ∀ e ∈ entries, e.1.Obeys P ∧ e.2.Obeys P
  objects : ∀ o ∈ h.objects, o.attributes.Obeys P
  scope : ObeyNamed P h.scope

structure Arguments.Obeys (P : Nat → Nat → Prop) (args : Arguments) : Prop where
  positional : ∀ v ∈ args.positional, v.Obeys P
  keywords : ObeyNamed P args.keywords

variable {P P' : Nat → Nat → Prop}

theorem Value.obeyItems_iff {items : List Value} : ObeyItems P items ↔ ∀ v ∈ items, v.Obeys P := by
  induction items with
  | nil => simp [ObeyItems]
  | cons v rest ih => rw [ObeyItems, ih, List.forall_mem_cons]

/-- What may be missing is none then. -/
theorem Value.obeys_getD {v? : Option Value} (h : ∀ v, v? = some v → v.Obeys P) :
    (v?.getD .none).Obeys P := by
  cases v? with
  | none => trivial
  | some v => exact h v rfl

theorem heap_obeys_empty : Heap.empty.Obeys P where
  lists := by simp [Heap.empty]
  dicts := by simp [Heap.empty]
  objects := by simp [Heap.empty]
  scope := by simp [Heap.empty, ObeyNamed]

/-! ## Weaker rules -/

section Weakening

mutual

theorem Value.Obeys.imp (hP : ∀ store depth, P store depth → P' store depth) :
    ∀ {v : Value}, v.Obeys P → v.Obeys P'
  | .function f, h => Callable.Obeys.imp hP (f := f) h
  | .tuple items, h => show Value.ObeyItems P' items from Value.ObeyItems.imp hP h
  | .none, _ | .bool _, _ | .int _, _ | .float _, _ | .str _, _ | .list _, _ | .dict _, _
  | .object _, _ => trivial

theorem Value.ObeyItems.imp (hP : ∀ store depth, P store depth → P' store depth) :
    ∀ {items : List Value}, Value.ObeyItems P items → Value.ObeyItems P' items
  | [], _ => trivial
  | _ :: _, h => ⟨Value.Obeys.imp hP h.1, Value.ObeyItems.imp hP h.2⟩

theorem Callable.Obeys.imp (hP : ∀ store depth, P store depth → P' store depth) :
    ∀ {f : Callable}, f.Obeys P → f.Obeys P'
  | .native _ _ body, h => show Callable.ObeysBody P' body from Callable.ObeysBody.imp hP h
  | .bound _ _ _, h => ⟨Value.Obeys.imp hP h.1, Callable.Obeys.imp hP h.2⟩
  | .interceptor _ _ _ store maxDepth _, h => ⟨hP store maxDepth h.1, Callable.Obeys.imp hP h.2⟩

theorem Callable.ObeysBody.imp (hP : ∀ store depth, P store depth → P' store depth) :
    ∀ {body : Body Value}, Callable.ObeysBody P body → Callable.ObeysBody P' body
  | .give v, h | .append v, h | .insert _ v, h => Value.Obeys.imp hP (v := v) h
  | .andThen _ _, h | .pipe _ _, h | .recover _ _, h =>
    ⟨Callable.ObeysBody.imp hP h.1, Callable.ObeysBody.imp hP h.2⟩
  | .branch _ _ _, h =>
    ⟨Callable.ObeysBody.imp hP h.1, Callable.ObeysBody.imp hP h.2.1,
      Callable.ObeysBody.imp hP h.2.2⟩
  | .nothing, _ | .echo, _ | .argument _, _ | .count, _ | .collect, _ | .sum _, _ | .fail _, _
  | .panic _, _ | .item _, _ | .entry _, _ | .assign _, _ | .call _, _ | .apply, _ | .bind, _ =>
    trivial

end

theorem ObeyNamed.imp (hP : ∀ store depth, P store depth → P' store depth)
    {entries : List (String × Value)} (h : ObeyNamed P entries) : ObeyNamed P' entries :=
  fun e he => (h e he).imp hP

theorem Heap.Obeys.imp (hP : ∀ store depth, P store depth → P' store depth) {h : Heap}
    (hh : h.Obeys P) : h.Obeys P' where
  lists := fun items hi v hv => (hh.lists items hi v hv).imp hP
  dicts := fun entries hes e he =>
    ⟨(hh.dicts entries hes e he).1.imp hP, (hh.dicts entries hes e he).2.imp hP⟩
  objects := by
    intro o ho
    have hattributes := hh.objects o ho
    cases hkind : o.attributes with
    | listed entries =>
      rw [hkind] at hattributes
      exact ObeyNamed.imp hP hattributes
    | calls name arguments =>
      rw [hkind] at hattributes
      exact ObeyNamed.imp hP hattributes
    | absent => trivial
    | panics payload => trivial
  scope := hh.scope.imp hP

end Weakening

/-! ## Rules that always hold -/

section Always

mutual

theorem Value.obeys_of_forall (hP : ∀ store depth, P store depth) : ∀ v : Value, v.Obeys P
  | .function f => Callable.obeys_of_forall hP f
  | .tuple items => Value.obeyItems_of_forall hP items
  | .none | .bool _ | .int _ | .float _ | .str _ | .list _ | .dict _ | .object _ => trivial

theorem Value.obeyItems_of_forall (hP : ∀ store depth, P store depth) :
    ∀ items : List Value, Value.ObeyItems P items
  | [] => trivial
  | v :: rest => ⟨Value.obeys_of_forall hP v, Value.obeyItems_of_forall hP rest⟩

theorem Callable.obeys_of_forall (hP : ∀ store depth, P store depth) (f : Callable) :
    f.Obeys P := by
  cases f with
  | native _ _ body => exact Callable.obeysBody_of_forall hP body
  | bound _ receiver target =>
    exact ⟨Value.obeys_of_forall hP receiver, Callable.obeys_of_forall hP target⟩
  | interceptor _ _ _ store maxDepth target =>
    exact ⟨hP store maxDepth, Callable.obeys_of_forall hP target⟩

theorem Callable.obeysBody_of_forall (hP : ∀ store depth, P store depth) :
    ∀ body : Body Value, Callable.ObeysBody P body
  | .give v | .append v | .insert _ v => Value.obeys_of_forall hP v
  | .andThen first second | .pipe first second | .recover first second =>
    ⟨Callable.obeysBody_of_forall hP first, Callable.obeysBody_of_forall hP second⟩
  | .branch test yes no =>
    ⟨Callable.obeysBody_of_forall hP test, Callable.obeysBody_of_forall hP yes,
      Callable.obeysBody_of_forall hP no⟩
  | .nothing | .echo | .argument _ | .count | .collect | .sum _ | .fail _ | .panic _ | .item _
  | .entry _ | .assign _ | .call _ | .apply | .bind => trivial

end

theorem obeyNamed_of_forall (hP : ∀ store depth, P store depth) (entries : List (String × Value)) :
    ObeyNamed P entries := fun e _ => e.2.obeys_of_forall hP

theorem Arguments.obeys_of_forall (hP : ∀ store depth, P store depth) (args : Arguments) :
    args.Obeys P := ⟨fun v _ => v.obeys_of_forall hP, obeyNamed_of_forall hP args.keywords⟩

theorem Heap.obeys_of_forall (hP : ∀ store depth, P store depth) (h : Heap) : h.Obeys P where
  lists := fun _ _ v _ => v.obeys_of_forall hP
  dicts := fun _ _ e _ => ⟨e.1.obeys_of_forall hP, e.2.obeys_of_forall hP⟩
  objects := by
    intro o _
    cases o.attributes with
    | listed entries => exact obeyNamed_of_forall hP entries
    | calls name arguments => exact obeyNamed_of_forall hP arguments
    | absent => trivial
    | panics payload => trivial
  scope := obeyNamed_of_forall hP h.scope

end Always

/-! ## Entries -/

theorem ObeyNamed.get? {entries : List (String × Value)} (h : ObeyNamed P entries) {name : String}
    {v : Value} (hv : Entries.get? name entries = some v) : v.Obeys P :=
  h _ (Entries.mem_of_find? hv)

theorem ObeyNamed.set {entries : List (String × Value)} (h : ObeyNamed P entries) (name : String)
    {v : Value} (hv : v.Obeys P) : ObeyNamed P (Entries.set name v entries) := by
  intro e he
  rcases Entries.mem_put he with hvalue | hold
  · rw [hvalue]
    exact hv
  · exact h e hold

theorem ObeyNamed.ofAssignments {entries : List (String × Value)} (h : ObeyNamed P entries) :
    ObeyNamed P (Entries.ofAssignments entries) := by
  intro e he
  obtain ⟨a, ha, hvalue⟩ := Entries.mem_ofAssignments he
  rw [← hvalue]
  exact h a ha

theorem ObeyNamed.putSorted {entries : List (String × Value)} (h : ObeyNamed P entries)
    (name : String) {v : Value} (hv : v.Obeys P) :
    ObeyNamed P (Entries.putSorted name v entries) := by
  intro e he
  rcases Entries.mem_putSorted he with hvalue | hold
  · rw [hvalue]
    exact hv
  · exact h e hold

theorem ObeyNamed.sorted {entries : List (String × Value)} (h : ObeyNamed P entries) :
    ObeyNamed P (Entries.sorted entries) := by
  suffices hs : ∀ acc, ObeyNamed P acc →
      ObeyNamed P (entries.foldl (fun acc e => Entries.putSorted e.1 e.2 acc) acc) from
    hs [] fun e he => nomatch he
  induction entries with
  | nil => exact fun acc hacc => hacc
  | cons e rest ih =>
    obtain ⟨he, hrest⟩ := List.forall_mem_cons.mp h
    exact fun acc hacc => ih hrest _ (hacc.putSorted e.1 he)

/-- An entry of a dict keeps the key that it had. -/
theorem obeys_put {entries : List (Value × Value)} {key value : Value}
    (h : ∀ e ∈ entries, e.1.Obeys P ∧ e.2.Obeys P) (hk : key.Obeys P) (hv : value.Obeys P) :
    ∀ e ∈ Entries.put Value.sameKey key value entries, e.1.Obeys P ∧ e.2.Obeys P := by
  induction entries with
  | nil => exact List.forall_mem_singleton.mpr ⟨hk, hv⟩
  | cons e rest ih =>
    obtain ⟨he, hrest⟩ := List.forall_mem_cons.mp h
    unfold Entries.put
    split
    next => exact List.forall_mem_cons.mpr ⟨⟨he.1, hv⟩, hrest⟩
    next => exact List.forall_mem_cons.mpr ⟨he, ih hrest⟩

theorem obeys_dictEntries {assignments : List (Value × Value)}
    (h : ∀ a ∈ assignments, a.1.Obeys P ∧ a.2.Obeys P) :
    ∀ e ∈ Heap.dictEntries assignments, e.1.Obeys P ∧ e.2.Obeys P := by
  suffices hs : ∀ acc : List (Value × Value), (∀ e ∈ acc, e.1.Obeys P ∧ e.2.Obeys P) →
      ∀ e ∈ assignments.foldl (fun entries a => Entries.put Value.sameKey a.1 a.2 entries) acc,
        e.1.Obeys P ∧ e.2.Obeys P from
    hs [] fun e he => nomatch he
  induction assignments with
  | nil => exact fun acc hacc => hacc
  | cons a rest ih =>
    obtain ⟨ha, hrest⟩ := List.forall_mem_cons.mp h
    exact fun acc hacc => ih hrest _ (obeys_put hacc ha.1 ha.2)

/-! ## The heap -/

/-- Changing one cell keeps what is true of all cells. -/
theorem forall_mem_modify {α : Type} {p : α → Prop} {xs : Array α} (h : ∀ x ∈ xs, p x) (i : Nat)
    {f : α → α} (hf : ∀ x, p x → p (f x)) : ∀ x ∈ xs.modify i f, p x := by
  intro x hx
  obtain ⟨k, hk⟩ := Array.mem_iff_getElem?.mp hx
  rw [Array.getElem?_modify] at hk
  split at hk
  next =>
    obtain ⟨y, hy, rfl⟩ := Option.map_eq_some_iff.mp hk
    exact hf y (h y (Array.mem_of_getElem? hy))
  next => exact h x (Array.mem_of_getElem? hk)

namespace Heap.Obeys

variable {h : Heap}

theorem listAt (hh : h.Obeys P) (cell : Nat) : ∀ v ∈ h.listAt cell, v.Obeys P := by
  unfold Heap.listAt
  cases hcell : h.lists[cell]? with
  | none => exact fun v hv => nomatch hv
  | some items => exact hh.lists items (Array.mem_of_getElem? hcell)

theorem dictAt (hh : h.Obeys P) (cell : Nat) :
    ∀ e ∈ h.dictAt cell, e.1.Obeys P ∧ e.2.Obeys P := by
  unfold Heap.dictAt
  cases hcell : h.dicts[cell]? with
  | none => exact fun e he => nomatch he
  | some entries => exact hh.dicts entries (Array.mem_of_getElem? hcell)

theorem object? (hh : h.Obeys P) {cell : Nat} {o : Object} (ho : h.object? cell = some o) :
    o.attributes.Obeys P := hh.objects o (Array.mem_of_getElem? ho)

theorem lookup? (hh : h.Obeys P) {name : String} {v : Value} (hv : h.lookup? name = some v) :
    v.Obeys P := hh.scope.get? hv

theorem item? (hh : h.Obeys P) {target v : Value} {index : Nat} (ht : target.Obeys P)
    (hv : h.item? target index = some v) : v.Obeys P := by
  cases target with
  | list cell => exact hh.listAt cell v (List.mem_of_getElem? hv)
  | tuple items => exact Value.obeyItems_iff.mp ht v (List.mem_of_getElem? hv)
  | _ => cases hv

theorem get? (hh : h.Obeys P) {target key v : Value} (hv : h.get? target key = some v) :
    v.Obeys P := by
  cases target with
  | dict cell =>
    obtain ⟨e, he, hvalue⟩ := Entries.exists_mem_of_find? hv
    rw [← hvalue]
    exact (hh.dictAt cell e he).2
  | _ => cases hv

theorem assign (hh : h.Obeys P) (name : String) {v : Value} (hv : v.Obeys P) :
    (h.assign name v).Obeys P := ⟨hh.lists, hh.dicts, hh.objects, hh.scope.set name hv⟩

/-- Making a function puts nothing into a cell. -/
theorem of_cells (hh : h.Obeys P) (functions interceptors : Nat) :
    ({ h with functions, interceptors } : Heap).Obeys P :=
  ⟨hh.lists, hh.dicts, hh.objects, hh.scope⟩

end Heap.Obeys

/-! ## Building -/

/-- On a heap that obeys the rule, `p` leaves one that does, and makes something with the property
`Q`. -/
def Building (P : Nat → Nat → Prop) {α : Type} (Q : α → Prop) (p : Heap → α × Heap) : Prop :=
  ∀ h : Heap, h.Obeys P → Q (p h).1 ∧ (p h).2.Obeys P

namespace Building

variable {α β : Type} {Q : α → Prop} {R : β → Prop}

theorem same {a : α} (ha : Q a) : Building P Q fun h => (a, h) := fun _ hh => ⟨ha, hh⟩

theorem bind {p : Heap → α × Heap} {k : α → Heap → β × Heap} (hp : Building P Q p)
    (hk : ∀ a, Q a → Building P R (k a)) : Building P R fun h => k (p h).1 (p h).2 := by
  intro h hh
  obtain ⟨ha, hh⟩ := hp h hh
  exact hk _ ha _ hh

theorem newList {items : List Value} (hi : ∀ v ∈ items, v.Obeys P) :
    Building P (Value.Obeys P) (Heap.newList items) := by
  refine fun h hh => ⟨trivial, ⟨fun xs hxs => ?_, hh.dicts, hh.objects, hh.scope⟩⟩
  rcases Array.mem_push.mp hxs with hold | rfl
  · exact hh.lists xs hold
  · exact hi

theorem newDict {assignments : List (Value × Value)}
    (ha : ∀ a ∈ assignments, a.1.Obeys P ∧ a.2.Obeys P) :
    Building P (Value.Obeys P) (Heap.newDict assignments) := by
  refine fun h hh => ⟨trivial, ⟨hh.lists, fun es hes => ?_, hh.objects, hh.scope⟩⟩
  rcases Array.mem_push.mp hes with hold | rfl
  · exact hh.dicts es hold
  · exact obeys_dictEntries ha

theorem newObject (o : Object) (ho : o.attributes.Obeys P) :
    Building P (Value.Obeys P) (Heap.newObject o) := by
  refine fun h hh => ⟨trivial, ⟨hh.lists, hh.dicts, fun o' ho' => ?_, hh.scope⟩⟩
  rcases Array.mem_push.mp ho' with hold | rfl
  · exact hh.objects o' hold
  · exact ho

theorem newNative (signature : Signature) {body : Body Value} (hb : Callable.ObeysBody P body) :
    Building P (Callable.Obeys P) (Heap.newNative signature body) :=
  fun _ hh => ⟨hb, hh.of_cells _ _⟩

theorem bindTo {target : Callable} {receiver? : Option Value} (ht : target.Obeys P)
    (hr : ∀ v, receiver? = some v → v.Obeys P) :
    Building P (Callable.Obeys P) (Heap.bind target receiver?) := by
  intro h hh
  cases receiver? with
  | none => exact ⟨ht, hh⟩
  | some receiver => exact ⟨⟨hr receiver rfl, ht⟩, hh.of_cells _ _⟩

theorem push {target item : Value} (hi : item.Obeys P) :
    Building P (fun _ => True) (Heap.push target item) := by
  intro h hh
  cases target with
  | list cell =>
    have hlists := forall_mem_modify hh.lists cell (f := (· ++ [item])) fun items hitems v hv => ?_
    · exact ⟨trivial, ⟨hlists, hh.dicts, hh.objects, hh.scope⟩⟩
    · rcases List.mem_append.mp hv with hold | hnew
      · exact hitems v hold
      · exact List.mem_singleton.mp hnew ▸ hi
  | _ => exact ⟨trivial, hh⟩

theorem insert {target key item : Value} (hk : key.Obeys P) (hi : item.Obeys P) :
    Building P (fun _ => True) (Heap.insert target key item) := by
  intro h hh
  cases target with
  | dict cell =>
    have hdicts := forall_mem_modify hh.dicts cell (f := Entries.put Value.sameKey key item)
      fun entries hentries => obeys_put hentries hk hi
    exact ⟨trivial, ⟨hh.lists, hdicts, hh.objects, hh.scope⟩⟩
  | _ => exact ⟨trivial, hh⟩

theorem apply (layer : Wrapping) {v : Value} (hv : v.Obeys P) :
    Building P (Value.Obeys P) (layer.apply v) := by
  cases layer with
  | list => exact newList (List.forall_mem_singleton.mpr hv)
  | tuple => exact same ⟨hv, trivial⟩
  | dict => exact newDict (List.forall_mem_singleton.mpr ⟨trivial, hv⟩)
  | object =>
    have hentries : ObeyNamed P [("k", v)] := List.forall_mem_singleton.mpr hv
    exact newObject _ hentries

theorem applyMany (layer : Wrapping) (n : Nat) {v : Value} (hv : v.Obeys P) :
    Building P (Value.Obeys P) (layer.applyMany n v) := by
  induction n generalizing v with
  | zero => exact same hv
  | succ n ih => exact (apply layer hv).bind fun w hw => ih hw

mutual

/-- A literal holds no interceptor, so it builds a value that obeys the rule. -/
theorem build : ∀ l : Literal, Building P (Value.Obeys P) l.build
  | .none | .bool _ | .int _ | .float _ | .str _ => same trivial
  | .list items => (buildItems items).bind fun _ hvs => newList hvs
  | .tuple items => (buildItems items).bind fun _ hvs => same (Value.obeyItems_iff.mpr hvs)
  | .dict assignments => (buildPairs assignments).bind fun _ hes => newDict hes
  | .record typeName assignments =>
    (buildNamed assignments).bind fun es hes =>
      newObject
        { typeName, attributes := .listed (Entries.ofAssignments es), callable := false
          description := .byType }
        hes.ofAssignments
  | .object typeName callable description attributes =>
    (buildAttributes attributes).bind fun attributes has =>
      newObject { typeName, attributes, callable, description } has
  | .function signature body =>
    (buildBody body).bind fun _ hb => (newNative signature hb).bind fun _ hf => same hf
  | .variable _ => fun _ hh => ⟨Value.obeys_getD fun _ hv => hh.lookup? hv, hh⟩
  | .wrapped layer count inner => (build inner).bind fun _ hv => applyMany layer count hv

theorem buildItems : ∀ items : List Literal,
    Building P (fun vs => ∀ v ∈ vs, v.Obeys P) (Literal.buildItems items)
  | [] => same fun _ hv => nomatch hv
  | l :: rest =>
    (build l).bind fun _ hv => (buildItems rest).bind fun _ hvs =>
      same (List.forall_mem_cons.mpr ⟨hv, hvs⟩)

theorem buildPairs : ∀ assignments : List (Literal × Literal),
    Building P (fun es => ∀ e ∈ es, e.1.Obeys P ∧ e.2.Obeys P) (Literal.buildPairs assignments)
  | [] => same fun _ he => nomatch he
  | (k, l) :: rest => by
    intro h hh
    obtain ⟨hk, hh⟩ := build k h hh
    obtain ⟨hv, hh⟩ := build l _ hh
    obtain ⟨hes, hh⟩ := buildPairs rest _ hh
    exact ⟨List.forall_mem_cons.mpr ⟨⟨hk, hv⟩, hes⟩, hh⟩

theorem buildNamed : ∀ assignments : List (String × Literal),
    Building P (ObeyNamed P) (Literal.buildNamed assignments)
  | [] => same fun _ he => nomatch he
  | (_, l) :: rest => by
    intro h hh
    obtain ⟨hv, hh⟩ := build l h hh
    obtain ⟨hes, hh⟩ := buildNamed rest _ hh
    exact ⟨List.forall_mem_cons.mpr ⟨hv, hes⟩, hh⟩

theorem buildAttributes : ∀ attributes : Attributes Literal,
    Building P (Attributes.Obeys P) (Literal.buildAttributes attributes)
  | .absent | .panics _ => same trivial
  | .listed entries => (buildNamed entries).bind fun _ hes => same hes
  | .calls _ arguments => (buildNamed arguments).bind fun _ hes => same hes

theorem buildBody : ∀ body : Body Literal,
    Building P (Callable.ObeysBody P) (Literal.buildBody body)
  | .nothing | .echo | .argument _ | .count | .collect | .sum _ | .fail _ | .panic _ | .item _
  | .entry _ | .assign _ | .call _ | .apply | .bind => same trivial
  | .give l | .append l | .insert _ l => (build l).bind fun _ hv => same hv
  | .andThen first second | .pipe first second | .recover first second =>
    (buildBody first).bind fun _ hb => (buildBody second).bind fun _ hc => same ⟨hb, hc⟩
  | .branch test yes no =>
    (buildBody test).bind fun _ ha => (buildBody yes).bind fun _ hb =>
      (buildBody no).bind fun _ hc => same ⟨ha, hb, hc⟩

end

end Building

/-! ## Modules -/

/-- Every interceptor that a module binds obeys the rule. -/
def Module.Obeys (P : Nat → Nat → Prop) (m : Module) : Prop := ObeyNamed P m.bindings

theorem Module.Obeys.bindName {m : Module} (hm : m.Obeys P) (name : String) {v : Value}
    (hv : v.Obeys P) : (m.bindName name v).Obeys P := hm.putSorted name hv

namespace Building

theorem define (definitions : List Definition) {m : Module} (hm : m.Obeys P) :
    Building P (Module.Obeys P) (Blueprint.define m definitions) := by
  induction definitions generalizing m with
  | nil => exact same hm
  | cons d rest ih =>
    exact (buildBody d.body).bind fun b hb => (newNative _ hb).bind fun f hf =>
      ih (hm.bindName d.name (v := .function f) hf)

theorem bindAll (bindings : List (String × Literal)) {m : Module} (hm : m.Obeys P) :
    Building P (Module.Obeys P) (Blueprint.bindAll m bindings) := by
  induction bindings generalizing m with
  | nil => exact same hm
  | cons e rest ih => exact (build e.2).bind fun v hv => ih (hm.bindName e.1 hv)

theorem blueprint (b : Blueprint) : Building P (Module.Obeys P) b.build := by
  have hblank : (Module.blank b.name b.file).Obeys P := fun e he => nomatch he
  exact (define b.definitions hblank).bind fun m hm => (bindAll b.bindings hm).bind fun m hm =>
    same hm

end Building

end CallSampler
