import CallSampler.Proofs.Value.Rendering

/-!
# Four levels of display

What is rendered with so many levels depends on no more than what is so many levels deep
(`SameWithin.render_eq`). The text of a container is made of the texts of its parts, each at a place
of its own (`exists_showsAround_child`), and so the text of a value has a place for what stands at a
position: all around is the same for every value that differs only there (`exists_showsAround`). At
a position four levels deep no level is left, and any container shows as dots
(`displays_four_levels`).
-/

namespace CallSampler

/-! ## Texts at places -/

section Places

variable {α β γ : Type} {R : α → γ → Prop} {S : β → γ → Prop}

/-- One text among others stands between what comes before it and what comes after it, whatever it
is. -/
theorem exists_commaSeparated_set {texts : List String} {i : Nat} (hi : i < texts.length) :
    ∃ before after, ∀ text, commaSeparated (texts.set i text) = before ++ text ++ after := by
  obtain ⟨before, hbefore⟩ : ∃ before, ∀ text back,
      commaSeparated (texts.take i ++ text :: back) =
        before ++ text ++ String.join (back.map (", " ++ ·)) := by
    cases texts.take i with
    | nil => exact ⟨"", fun text back => by simp [commaSeparated]⟩
    | cons s front =>
      refine ⟨s ++ String.join (front.map (", " ++ ·)) ++ ", ", fun text back => ?_⟩
      simp [commaSeparated, String.append_assoc]
  refine ⟨before, String.join ((texts.drop (i + 1)).map (", " ++ ·)), fun text => ?_⟩
  rw [List.set_eq_take_append_cons_drop, if_pos hi, hbefore]

/-- In another list that differs at one index the texts are the same at all others. -/
theorem forall₂_set {T : α → β → Prop} {xs : List α} {ys : List β} {ts : List γ} {i : Nat} {y : β}
    {t : γ} (h : List.Forall₂ R xs ts) (hT : ∀ x y, T x y → ∀ t, R x t → S y t)
    (hothers : ∀ j, j ≠ i → Option.Rel T xs[j]? ys[j]?) (hi : i < ts.length)
    (hy : ys[i]? = some y) (ht : S y t) : List.Forall₂ S ys (ts.set i t) := by
  rw [forall₂_iff_getElem?]
  intro j
  by_cases hj : j = i
  · subst hj
    rw [hy, List.getElem?_set_self hi]
    exact .some ht
  · have hold := forall₂_iff_getElem?.mp h j
    have hother := hothers j hj
    rw [List.getElem?_set_ne (Ne.symm hj)]
    generalize xs[j]? = x?, ys[j]? = y?, ts[j]? = t? at hold hother ⊢
    cases hother with
    | none =>
      cases hold
      exact .none
    | some hxy =>
      cases hold with
      | some hx => exact .some (hT _ _ hxy _ hx)

end Places

namespace Heap

/-! ## Around a position -/

section Around

variable {h h' : Heap} {v v' u w : Value} {c : Child} {position : List Child} {levels : Nat}
  {quoted : Bool}

theorem render_object_eq_getD (levels : Nat) (quoted : Bool) (cell : Nat) :
    h.render levels quoted (.object cell) =
      ((h.object? cell).map Object.describe).getD (.ok "") := by
  rw [render]
  cases h.object? cell with
  | none => rfl
  | some o => rfl

theorem SameFace.render_eq (hf : SameFace h h' v v') (hv : v.isContainer = false) (levels : Nat)
    (quoted : Bool) : h.render levels quoted v = h'.render levels quoted v' := by
  cases hf with
  | function hname => rw [render, render, hname]
  | object hdescribe => rw [render_object_eq_getD, render_object_eq_getD, hdescribe]
  | list cell cell' => contradiction
  | tuple items items' => contradiction
  | dict cell cell' => contradiction
  | _ => rw [render, render]

/-- Entries whose keys and values are related. -/
theorem rel_entry {R : Value → Value → Prop} {e? e'? : Option (Value × Value)}
    (hkey : Option.Rel R (e?.map Prod.fst) (e'?.map Prod.fst))
    (hvalue : Option.Rel R (e?.map Prod.snd) (e'?.map Prod.snd)) :
    Option.Rel (fun e e' => R e.1 e'.1 ∧ R e.2 e'.2) e? e'? := by
  cases e? with
  | none =>
    cases e'? with
    | none => exact .none
    | some e' => cases hkey
  | some e =>
    cases e'? with
    | none => cases hkey
    | some e' =>
      cases hkey with
      | some hkey =>
        cases hvalue with
        | some hvalue => exact .some ⟨hkey, hvalue⟩

/-- What is the same so many levels deep is rendered the same with so many levels. -/
theorem SameWithin.render_eq (hs : h.SameWithin h' levels v v') (quoted : Bool) :
    h.render levels quoted v = h'.render levels quoted v' := by
  induction levels generalizing v v' quoted with
  | zero =>
    rcases hs with hf | ⟨hv, hv'⟩
    · by_cases hv : v.isContainer
      · rw [render_zero hv, render_zero (hf.isContainer_eq ▸ hv)]
      · exact hf.render_eq (Bool.eq_false_iff.mpr hv) 0 quoted
    · rw [render_zero hv, render_zero hv']
  | succ levels ih =>
    obtain ⟨hf, hchild⟩ := hs
    cases hf with
    | list cell cell' =>
      have hitems : List.Forall₂ (h.SameWithin h' levels) (h.listAt cell) (h'.listAt cell') :=
        forall₂_iff_getElem?.mpr fun i => hchild (.item i)
      rw [render, render, mapM_eq_of_forall₂ (hitems.imp fun _ _ hu => ih hu true)]
    | tuple items items' =>
      have hitems : List.Forall₂ (h.SameWithin h' levels) items items' :=
        forall₂_iff_getElem?.mpr fun i => hchild (.item i)
      rw [render, render, mapM_eq_of_forall₂ (hitems.imp fun _ _ hu => ih hu true),
        hitems.length_eq]
    | dict cell cell' =>
      have hentries : List.Forall₂
          (fun e e' => h.SameWithin h' levels e.1 e'.1 ∧ h.SameWithin h' levels e.2 e'.2)
          (h.dictAt cell) (h'.dictAt cell') :=
        forall₂_iff_getElem?.mpr fun i => rel_entry (hchild (.key i)) (hchild (.value i))
      rw [render, render]
      refine congrArg (· >>= _) (mapM_eq_of_forall₂ (hentries.imp fun e e' he => ?_))
      dsimp only
      rw [ih he.1 true, ih he.2 true]
    | function hname => exact SameFace.render_eq (.function hname) rfl (levels + 1) quoted
    | object hdescribe => exact SameFace.render_eq (.object hdescribe) rfl (levels + 1) quoted
    | _ => rfl

/-- What is the same is rendered the same. -/
theorem Same.render_eq (hs : h.Same h' v v') (levels : Nat) (quoted : Bool) :
    h.render levels quoted v = h'.render levels quoted v' :=
  (hs.sameWithin levels).render_eq quoted

/-- Among the texts of items there is a place for that of each of them, and the rest does not depend
on that item. -/
theorem exists_items_around {items : List Value} {texts : List String} {i : Nat}
    (htexts : List.Forall₂ (fun u t => h.render levels true u = .ok t) items texts)
    (hw : items[i]? = some w) :
    ∃ before after, ∀ (h' : Heap) (items' : List Value) (w' : Value) (t : String),
      (∀ j, j ≠ i → Option.Rel (h.Same h') items[j]? items'[j]?) → items'[i]? = some w' →
      h'.render levels true w' = .ok t →
      ∃ texts', List.Forall₂ (fun u t => h'.render levels true u = .ok t) items' texts' ∧
        texts'.length = texts.length ∧ commaSeparated texts' = before ++ t ++ after := by
  have hi : i < texts.length := htexts.length_eq ▸ (List.getElem?_eq_some_iff.mp hw).1
  obtain ⟨before, after, haround⟩ := exists_commaSeparated_set hi
  refine ⟨before, after, fun h' items' w' t hothers hw' ht =>
    ⟨texts.set i t, ?_, List.length_set, haround t⟩⟩
  refine forall₂_set htexts (fun u u' hs t ht => ?_) hothers hi hw' ht
  rwa [← hs.render_eq]

/-- In the text of a dict there is a place for each entry, and the rest does not depend on that
entry. -/
theorem exists_entry_around {cell i : Nat} {e : Value × Value} {text : String}
    (htext : h.render (levels + 1) quoted (.dict cell) = .ok text)
    (he : (h.dictAt cell)[i]? = some e) :
    ∃ before after, ∀ (h' : Heap) (cell' : Nat) (e' : Value × Value) (key value : String),
      (∀ j, j ≠ i → Option.Rel (fun e e' => h.Same h' e.1 e'.1 ∧ h.Same h' e.2 e'.2)
        (h.dictAt cell)[j]? (h'.dictAt cell')[j]?) → (h'.dictAt cell')[i]? = some e' →
      h'.render levels true e'.1 = .ok key → h'.render levels true e'.2 = .ok value →
      h'.render (levels + 1) quoted (.dict cell') =
        .ok (before ++ (key ++ ": " ++ value) ++ after) := by
  obtain ⟨texts, htexts, -⟩ := render_dict_eq_ok_iff.mp htext
  have hi : i < texts.length := htexts.length_eq ▸ (List.getElem?_eq_some_iff.mp he).1
  have hi' : i < (texts.map entryText).length := by rwa [List.length_map]
  obtain ⟨before, after, haround⟩ := exists_commaSeparated_set hi'
  refine ⟨"\x7b" ++ before, after ++ "\x7d",
    fun h' cell' e' key value hothers he' hkey hvalue => ?_⟩
  refine render_dict_eq_ok_iff.mpr ⟨texts.set i (key, value), ?_, ?_⟩
  · refine forall₂_set htexts (fun e e' hs t ht => ?_) hothers hi he' ⟨hkey, hvalue⟩
    rwa [← hs.1.render_eq, ← hs.2.render_eq]
  · rw [List.map_set, haround]
    simp only [entryText, String.append_assoc]

/-- Whatever stands at a position of a value that is otherwise the same, these texts come before and
after its own. -/
def ShowsAround (h : Heap) (v : Value) (position : List Child) (levels : Nat) (quoted : Bool)
    (before after : String) : Prop :=
  ∀ (h' : Heap) (v' u' : Value) (t : String), h.SameBut h' position v v' →
    h'.valueAt? v' position = some u' → h'.render levels true u' = .ok t →
    h'.render (levels + position.length) quoted v' = .ok (before ++ t ++ after)

theorem exists_showsAround_list {cell i : Nat} (hd : h.Describes (.list cell))
    (hw : (h.listAt cell)[i]? = some w) (levels : Nat) (quoted : Bool) :
    ∃ before after, h.ShowsAround (.list cell) [.item i] levels quoted before after := by
  obtain ⟨text, htext⟩ := exists_render hd (levels + 1) quoted
  obtain ⟨texts, htexts, -⟩ := render_list_eq_ok_iff.mp htext
  obtain ⟨before, after, haround⟩ := exists_items_around htexts hw
  refine ⟨"[" ++ before, after ++ "]", fun h' v' w' t hs hw' ht => ?_⟩
  rw [valueAt?_singleton] at hw'
  cases hs.face with
  | list _ cell' =>
    have hitems (j : Nat) (hj : j ≠ i) := hs.child_of_ne (d := .item j) (by simpa using hj)
    obtain ⟨texts', htexts', -, htext'⟩ := haround h' (h'.listAt cell') w' t hitems hw' ht
    refine render_list_eq_ok_iff.mpr ⟨texts', htexts', ?_⟩
    simp only [htext', String.append_assoc]

theorem exists_showsAround_tuple {items : List Value} {i : Nat} (hd : h.Describes (.tuple items))
    (hw : items[i]? = some w) (levels : Nat) (quoted : Bool) :
    ∃ before after, h.ShowsAround (.tuple items) [.item i] levels quoted before after := by
  obtain ⟨text, htext⟩ := exists_render hd (levels + 1) quoted
  obtain ⟨texts, htexts, -⟩ := render_tuple_eq_ok_iff.mp htext
  obtain ⟨before, after, haround⟩ := exists_items_around htexts hw
  refine ⟨"(" ++ before, after ++ if texts.length = 1 then ",)" else ")",
    fun h' v' w' t hs hw' ht => ?_⟩
  rw [valueAt?_singleton] at hw'
  cases hs.face with
  | tuple _ items' =>
    have hitems (j : Nat) (hj : j ≠ i) := hs.child_of_ne (d := .item j) (by simpa using hj)
    obtain ⟨texts', htexts', hlength, htext'⟩ := haround h' items' w' t hitems hw' ht
    refine render_tuple_eq_ok_iff.mpr ⟨texts', htexts', ?_⟩
    simp only [htext', hlength, String.append_assoc]

/-- Where two dicts differ in one entry only, the others are the same. -/
theorem SameBut.entries {cell cell' i j : Nat} (hs : h.SameBut h' [c] (.dict cell) (.dict cell'))
    (hc : c = .key i ∨ c = .value i) (hj : j ≠ i) :
    Option.Rel (fun e e' => h.Same h' e.1 e'.1 ∧ h.Same h' e.2 e'.2) (h.dictAt cell)[j]?
      (h'.dictAt cell')[j]? := by
  refine rel_entry (hs.child_of_ne (d := .key j) ?_) (hs.child_of_ne (d := .value j) ?_)
  all_goals
    rcases hc with rfl | rfl
    all_goals simp [hj]

theorem exists_showsAround_key {cell i : Nat} {e : Value × Value} (hd : h.Describes (.dict cell))
    (he : (h.dictAt cell)[i]? = some e) (levels : Nat) (quoted : Bool) :
    ∃ before after, h.ShowsAround (.dict cell) [.key i] levels quoted before after := by
  obtain ⟨text, htext⟩ := exists_render hd (levels + 1) quoted
  obtain ⟨before, after, haround⟩ := exists_entry_around htext he
  have hchild : h.child? (.dict cell) (.value i) = some e.2 := by rw [child?, he]; rfl
  obtain ⟨value, hvalue⟩ := exists_render (hd.child hchild) levels true
  refine ⟨before, ": " ++ value ++ after, fun h' v' w' t hs hw' ht => ?_⟩
  rw [valueAt?_singleton] at hw'
  cases hs.face with
  | dict _ cell' =>
    obtain ⟨e', he', rfl⟩ := Option.map_eq_some_iff.mp hw'
    -- the value of the entry is beside the position of its key
    have hsame := hs.child_of_ne (d := .value i) Child.noConfusion
    rw [hchild, child?, he'] at hsame
    cases hsame with
    | some hsame =>
      rw [hsame.render_eq] at hvalue
      refine (haround h' cell' e' t value (fun j hj => ?_) he' ht hvalue).trans ?_
      · exact hs.entries (.inl rfl) hj
      · simp only [String.append_assoc]

theorem exists_showsAround_value {cell i : Nat} {e : Value × Value} (hd : h.Describes (.dict cell))
    (he : (h.dictAt cell)[i]? = some e) (levels : Nat) (quoted : Bool) :
    ∃ before after, h.ShowsAround (.dict cell) [.value i] levels quoted before after := by
  obtain ⟨text, htext⟩ := exists_render hd (levels + 1) quoted
  obtain ⟨before, after, haround⟩ := exists_entry_around htext he
  have hchild : h.child? (.dict cell) (.key i) = some e.1 := by rw [child?, he]; rfl
  obtain ⟨key, hkey⟩ := exists_render (hd.child hchild) levels true
  refine ⟨before ++ key ++ ": ", after, fun h' v' w' t hs hw' ht => ?_⟩
  rw [valueAt?_singleton] at hw'
  cases hs.face with
  | dict _ cell' =>
    obtain ⟨e', he', rfl⟩ := Option.map_eq_some_iff.mp hw'
    have hsame := hs.child_of_ne (d := .key i) Child.noConfusion
    rw [hchild, child?, he'] at hsame
    cases hsame with
    | some hsame =>
      rw [hsame.render_eq] at hkey
      refine (haround h' cell' e' key t (fun j hj => ?_) he' hkey ht).trans ?_
      · exact hs.entries (.inr rfl) hj
      · simp only [String.append_assoc]

/-- The text of a container has a place for that of each of its parts. -/
theorem exists_showsAround_child (hd : h.Describes v) (hw : h.child? v c = some w) (levels : Nat)
    (quoted : Bool) : ∃ before after, h.ShowsAround v [c] levels quoted before after := by
  unfold child? at hw
  split at hw
  case h_1 cell i => exact exists_showsAround_list hd hw levels quoted
  case h_2 items i => exact exists_showsAround_tuple hd hw levels quoted
  case h_3 cell i =>
    obtain ⟨e, he, -⟩ := Option.map_eq_some_iff.mp hw
    exact exists_showsAround_key hd he levels quoted
  case h_4 cell i =>
    obtain ⟨e, he, -⟩ := Option.map_eq_some_iff.mp hw
    exact exists_showsAround_value hd he levels quoted
  case h_5 => contradiction

/-- The place of a part of a part is in the place of the part. -/
theorem ShowsAround.within {front back before after : String} (hw : h.child? v c = some w)
    (hchild : h.ShowsAround v [c] (levels + position.length) quoted front back)
    (hinside : h.ShowsAround w position levels true before after) :
    h.ShowsAround v (c :: position) levels quoted (front ++ before) (after ++ back) := by
  intro h' v' u' t hs hu' ht
  obtain ⟨w', hw', hu'⟩ := exists_child_of_valueAt? hu'
  have ht := hinside h' w' u' t (hs.child hw hw') hu' ht
  have htext := hchild h' v' w' _ hs.at_child (by rw [valueAt?_singleton, hw']) ht
  rw [List.length_cons, ← Nat.add_assoc]
  refine htext.trans ?_
  simp only [String.append_assoc]

/-- The text of a value has a place for that of what stands at a position. Right at the top a string
is quoted only where the whole is. -/
theorem exists_showsAround (hd : h.Describes v) (hu : h.valueAt? v position = some u) (levels : Nat)
    (hquoted : position = [] → quoted = true) :
    ∃ before after, h.ShowsAround v position levels quoted before after := by
  induction position generalizing v quoted with
  | nil =>
    refine ⟨"", "", fun h' v' u' t _ hu' ht => ?_⟩
    cases hu'
    simpa [hquoted rfl] using ht
  | cons c position ih =>
    obtain ⟨w, hw, hu⟩ := exists_child_of_valueAt? hu
    obtain ⟨front, back, hchild⟩ :=
      exists_showsAround_child hd hw (levels + position.length) quoted
    obtain ⟨before, after, hinside⟩ := ih (hd.child hw) hu fun _ => rfl
    exact ⟨front ++ before, after ++ back, hchild.within hw hinside⟩

end Around

/-! ## Four levels -/

/-- A value is rendered to the one text that the rules give. -/
theorem exists_render_writes {h : Heap} {elided : Nat → Prop} {depth levels : Nat} {v : Value}
    (hd : h.Describes v) (hwritten : ∀ k < levels, ¬elided (depth + k))
    (hcut : elided (depth + levels) ∨ h.NestsAtMost levels v) (quoted : Bool) :
    ∃ text, h.render levels quoted v = .ok text ∧
      ∀ t, h.Writes elided depth quoted v t ↔ t = text := by
  obtain ⟨text, htext⟩ := exists_render hd levels quoted
  refine ⟨text, htext, fun t => ?_⟩
  rw [writes_iff_render hd hwritten hcut, htext]
  exact ⟨fun ht => (Except.ok.inj ht).symm, fun ht => by rw [ht]⟩

/-- A value whose objects describe themselves is rendered from every depth on, and the text is the
one that the rules give where they elide containers from four levels on. From the top it has a place
for what stands at a position four levels deep: a container there shows as dots, and so the text
stays as it is whatever container comes in its place, while anything else is written there. The same
goes for all those places at once, as what is the same four levels deep has the same text. With at
most four containers nested, the text is the full one, without any dots. -/
theorem displays_four_levels {h : Heap} {v : Value} (hd : h.Describes v) :
    (∀ depth quoted, ∃ text, h.render (reprLevels - depth) quoted v = .ok text ∧
      ∀ t, h.Writes (4 ≤ ·) depth quoted v t ↔ t = text) ∧
    (∀ quoted position u, position.length = 4 → h.valueAt? v position = some u →
      ∃ before after,
        (u.isContainer → h.render reprLevels quoted v = .ok (before ++ "..." ++ after)) ∧
        ∀ (h' : Heap) (v' u' : Value), h.SameBut h' position v v' →
          h'.valueAt? v' position = some u' →
          (u'.isContainer → h'.render reprLevels quoted v' = .ok (before ++ "..." ++ after)) ∧
          ∀ t, h'.render 0 true u' = .ok t →
            h'.render reprLevels quoted v' = .ok (before ++ t ++ after)) ∧
    (∀ (h' : Heap) (v' : Value), h.SameWithin h' 4 v v' →
      ∀ quoted, h.render reprLevels quoted v = h'.render reprLevels quoted v') ∧
    (h.NestsAtMost 4 v → ∀ quoted, ∃ text, h.render reprLevels quoted v = .ok text ∧
      ∀ t, h.Writes (fun _ => False) 0 quoted v t ↔ t = text) := by
  refine ⟨fun depth quoted => ?_, fun quoted position u hlength hu => ?_,
    fun h' v' hs quoted => hs.render_eq quoted, fun hn quoted => ?_⟩
  · refine exists_render_writes hd (fun k hk => ?_) (.inl ?_) quoted
    · rw [reprLevels] at hk
      omega
    · rw [reprLevels]
      omega
  · have hquoted : position = [] → quoted = true := by
      rintro rfl
      cases hlength
    obtain ⟨before, after, haround⟩ := exists_showsAround hd hu 0 hquoted
    rw [ShowsAround, hlength] at haround
    refine ⟨before, after, fun hcontainer => ?_, fun h' v' u' hs hu' => ⟨fun hcontainer => ?_, ?_⟩⟩
    · exact haround h v u "..." (sameBut_refl h position v) hu (render_zero hcontainer)
    · exact haround h' v' u' "..." hs hu' (render_zero hcontainer)
    · exact fun t ht => haround h' v' u' t hs hu' ht
  · exact exists_render_writes hd (fun _ _ => not_false) (.inr hn) quoted

/-- A list of a dict and an object, where the key of the only entry of the dict is a tuple of the
list itself, and a list of four nested containers. -/
def braid : Heap :=
  { Heap.empty with
    lists := #[[.dict 0, .object 0], [.tuple [.dict 1]]]
    dicts := #[[(.tuple [.list 0], .str "s")], [(.str "s", .tuple [.str "s"])]]
    objects := #[{ typeName := "N", attributes := .listed [], callable := false
                   description := .byType }] }

/-- The first list of `braid` unrolled, with an empty tuple in place of the dict where it comes
again. -/
def unbraided : Heap :=
  { braid with
    lists := #[[.dict 0, .object 0], [.tuple [], .object 0]]
    dicts := #[[(.tuple [.list 1], .str "s")]] }

theorem describes_braid {v : Value} (hv : v = .list 0 ∨ v = .list 1) : braid.Describes v := by
  refine describes_of_closed (S := fun u => u = .list 0 ∨ u = .list 1 ∨ u = .dict 0 ∨ u = .dict 1 ∨
    u = .tuple [.list 0] ∨ u = .tuple [.dict 1] ∨ u = .tuple [.str "s"] ∨ u = .object 0 ∨
    u = .str "s") ?_ ?_ (by tauto)
  · intro cell hcell
    have hcell : cell = 0 := by simpa using hcell
    exact ⟨_, _, by rw [hcell]; rfl, rfl⟩
  · rintro u c w (rfl | rfl | rfl | rfl | rfl | rfl | rfl | rfl | rfl) hw
    all_goals rcases c with (_ | _ | i) | (_ | i) | (_ | i)
    all_goals simp_all [child?, braid, listAt, dictAt]

theorem nestsAtMost_braid : braid.NestsAtMost 4 (.list 1) := by
  have hs (levels : Nat) : braid.NestsAtMost levels (.str "s") :=
    nestsAtMost_of_not_isContainer rfl levels
  refine nestsAtMost_of_child fun c u hu => ?_
  have hu : u = .tuple [.dict 1] := by
    rcases c with (_ | i) | i | i <;> simp_all [child?, braid, listAt]
  subst hu
  refine nestsAtMost_of_child fun c u hu => ?_
  have hu : u = .dict 1 := by
    rcases c with (_ | i) | i | i <;> simp_all [child?]
  subst hu
  refine nestsAtMost_of_child fun c u hu => ?_
  have hu : u = .str "s" ∨ u = .tuple [.str "s"] := by
    rcases c with i | (_ | i) | (_ | i) <;> simp_all [child?, braid, dictAt]
  obtain rfl | rfl := hu
  · exact hs 1
  · refine nestsAtMost_of_child fun c u hu => ?_
    have hu : u = .str "s" := by
      rcases c with (_ | i) | i | i <;> simp_all [child?]
    exact hu ▸ hs 0

theorem sameBut_unbraided :
    braid.SameBut unbraided [.item 0, .key 0, .item 0, .item 0] (.list 0) (.list 0) := by
  have hobject : braid.Same unbraided (.object 0) (.object 0) := SameFace.same (.object rfl) rfl
  have hs : braid.Same unbraided (.str "s") (.str "s") := SameFace.same (.str "s") rfl
  refine sameBut_of_child (.list 0 0) (fun d hd => ?_) rfl rfl
    (sameBut_of_child (.dict 0 0) (fun d hd => ?_) rfl rfl
      (sameBut_of_child (.tuple _ _) (fun d hd => ?_) rfl rfl
        (sameBut_of_child (.list 0 1) (fun d hd => ?_) rfl rfl (fun other hother => ?_))))
  · rcases d with (_ | _ | i) | i | i
    · contradiction
    · exact .some hobject
    all_goals exact .none
  · rcases d with i | (_ | i) | (_ | i)
    · exact .none
    · contradiction
    · exact .none
    · exact .some hs
    · exact .none
  · rcases d with (_ | i) | i | i
    · contradiction
    all_goals exact .none
  · rcases d with (_ | _ | i) | i | i
    · contradiction
    · exact .some hobject
    all_goals exact .none
  · exact absurd other.nil_prefix hother

theorem displays_four_levels_braid :
    braid.Describes (.list 0) ∧ braid.Describes (.list 1) ∧
      braid.valueAt? (.list 0) [.item 0, .key 0, .item 0, .item 0] = some (.dict 0) ∧
      unbraided.valueAt? (.list 0) [.item 0, .key 0, .item 0, .item 0] = some (.tuple []) ∧
      braid.SameBut unbraided [.item 0, .key 0, .item 0, .item 0] (.list 0) (.list 0) ∧
      braid.NestsAtMost 4 (.list 1) ∧
      (∃ text, braid.render (reprLevels - 3) true (.list 0) = .ok text ∧
        ∀ t, braid.Writes (4 ≤ ·) 3 true (.list 0) t ↔ t = text) ∧
      braid.display (.list 0) = .ok "[\x7b([..., <N object>],): 's'\x7d, <N object>]" ∧
      (∃ before after, braid.display (.list 0) = .ok (before ++ "..." ++ after) ∧
        unbraided.display (.list 0) = .ok (before ++ "..." ++ after)) ∧
      braid.repr (.list 0) = unbraided.repr (.list 0) ∧
      ∃ text, braid.display (.list 1) = .ok text ∧
        ∀ t, braid.Writes (fun _ => False) 0 false (.list 1) t ↔ t = text := by
  obtain ⟨hends, hcut, hlevels, -⟩ := displays_four_levels (describes_braid (.inl rfl))
  obtain ⟨-, -, -, hfull⟩ := displays_four_levels (describes_braid (.inr rfl))
  have hdict : braid.valueAt? (.list 0) [.item 0, .key 0, .item 0, .item 0] = some (.dict 0) := rfl
  have htuple : unbraided.valueAt? (.list 0) [.item 0, .key 0, .item 0, .item 0] =
      some (.tuple []) := rfl
  obtain ⟨before, after, hdots, hreplaced⟩ := hcut false _ _ rfl hdict
  obtain ⟨hother, -⟩ := hreplaced _ _ _ sameBut_unbraided htuple
  have hwithin : braid.SameWithin unbraided 4 (.list 0) (.list 0) :=
    sameBut_unbraided.sameWithin hdict htuple rfl rfl
  exact ⟨describes_braid (.inl rfl), describes_braid (.inr rfl), hdict, htuple, sameBut_unbraided,
    nestsAtMost_braid, hends 3 true, by decide, ⟨before, after, hdots rfl, hother rfl⟩,
    hlevels unbraided (.list 0) hwithin true, hfull nestsAtMost_braid false⟩

end Heap

end CallSampler
