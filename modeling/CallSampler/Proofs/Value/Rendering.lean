import CallSampler.Proofs.Capture.Sharing
import CallSampler.Proofs.Value.Positions

/-!
# Display forms

The rules of the display form count how deep a value stands, and at some depths containers show as
dots (`Heap.Writes`). Without such a depth they are the rules of the full text, which only a finite
value has. Every value whose objects describe themselves is rendered, however often it contains
itself (`exists_render`), and its text is the one that the rules give, if they elide at the depth
where the levels end or the value has no containers there (`writes_iff_render`).
-/

namespace CallSampler

/-! ## Texts with commas -/

theorem commaSeparated_eq (texts : List String) :
    commaSeparated texts = ", ".intercalate texts := by
  cases texts with
  | nil => rfl
  | cons s rest =>
    rw [commaSeparated]
    induction rest generalizing s with
    | nil => simp
    | cons t rest ih =>
      rw [String.intercalate_cons_cons, ← ih, List.map_cons, String.join_cons]
      simp only [String.append_assoc]

/-! ## Rules -/

/-- The text of a value that stands at a depth, where containers show as dots at the depths that are
elided. -/
inductive Heap.Writes (h : Heap) (elided : Nat → Prop) : Nat → Bool → Value → String → Prop
  | none (depth : Nat) (quoted : Bool) : Writes h elided depth quoted .none "None"
  | yes (depth : Nat) (quoted : Bool) : Writes h elided depth quoted (.bool true) "True"
  | no (depth : Nat) (quoted : Bool) : Writes h elided depth quoted (.bool false) "False"
  | int (depth : Nat) (quoted : Bool) (i : Int64) :
    Writes h elided depth quoted (.int i) (toString i.toInt)
  | float (depth : Nat) (quoted : Bool) (x : Float) :
    Writes h elided depth quoted (.float x) (floatText x)
  | bare (depth : Nat) (s : String) : Writes h elided depth false (.str s) s
  | quoted (depth : Nat) (s : String) : Writes h elided depth true (.str s) ("'" ++ s ++ "'")
  | function (depth : Nat) (quoted : Bool) (f : Callable) :
    Writes h elided depth quoted (.function f) ("<function " ++ f.name ++ ">")
  | object {cell : Nat} {o : Object} {text : String} (depth : Nat) (quoted : Bool)
    (ho : h.object? cell = some o) (hdescribe : o.describe = .ok text) :
    Writes h elided depth quoted (.object cell) text
  | dots {depth : Nat} {v : Value} (quoted : Bool) (hv : v.isContainer) (hdepth : elided depth) :
    Writes h elided depth quoted v "..."
  | list {depth cell : Nat} {texts : List String} (quoted : Bool) (hdepth : ¬elided depth)
    (hlength : texts.length = (h.listAt cell).length)
    (hitems : ∀ e ∈ (h.listAt cell).zip texts, Writes h elided (depth + 1) true e.1 e.2) :
    Writes h elided depth quoted (.list cell) ("[" ++ ", ".intercalate texts ++ "]")
  /-- A tuple of one item has a comma too. -/
  | single {depth : Nat} {item : Value} {text : String} (quoted : Bool) (hdepth : ¬elided depth)
    (hitem : Writes h elided (depth + 1) true item text) :
    Writes h elided depth quoted (.tuple [item]) ("(" ++ text ++ ",)")
  | tuple {depth : Nat} {items : List Value} {texts : List String} (quoted : Bool)
    (hdepth : ¬elided depth) (hmany : items.length ≠ 1) (hlength : texts.length = items.length)
    (hitems : ∀ e ∈ items.zip texts, Writes h elided (depth + 1) true e.1 e.2) :
    Writes h elided depth quoted (.tuple items) ("(" ++ ", ".intercalate texts ++ ")")
  | dict {depth cell : Nat} {texts : List (String × String)} (quoted : Bool)
    (hdepth : ¬elided depth) (hlength : texts.length = (h.dictAt cell).length)
    (hkeys : ∀ e ∈ (h.dictAt cell).zip texts, Writes h elided (depth + 1) true e.1.1 e.2.1)
    (hvalues : ∀ e ∈ (h.dictAt cell).zip texts, Writes h elided (depth + 1) true e.1.2 e.2.2) :
    Writes h elided depth quoted (.dict cell)
      ("\x7b" ++ ", ".intercalate (texts.map fun t => t.1 ++ ": " ++ t.2) ++ "\x7d")

/-! ## Lists of texts -/

section Texts

variable {α γ ε : Type} {R : α → γ → Prop}

theorem mapM_eq_ok_iff {f : α → Except ε γ} {xs : List α} {ts : List γ} :
    xs.mapM f = .ok ts ↔ List.Forall₂ (fun x t => f x = .ok t) xs ts := by
  induction xs generalizing ts with
  | nil =>
    rw [List.forall₂_nil_left_iff]
    exact ⟨fun h => by cases h; rfl, fun h => by rw [h]; rfl⟩
  | cons x xs ih =>
    rw [List.mapM_cons, List.forall₂_cons_left_iff]
    constructor
    · intro h
      cases hx : f x with
      | error e =>
        rw [hx] at h
        cases h
      | ok t =>
        cases hxs : xs.mapM f with
        | error e =>
          rw [hx, hxs] at h
          cases h
        | ok rest =>
          rw [hx, hxs] at h
          cases h
          exact ⟨t, rest, rfl, ih.mp hxs, rfl⟩
    · rintro ⟨t, rest, hx, hrest, rfl⟩
      rw [hx, ih.mpr hrest]
      rfl

theorem forall₂_congr_of_mem {S : α → γ → Prop} {xs : List α} {ts : List γ}
    (h : ∀ x ∈ xs, ∀ t, R x t ↔ S x t) : List.Forall₂ R xs ts ↔ List.Forall₂ S xs ts := by
  induction xs generalizing ts with
  | nil => rw [List.forall₂_nil_left_iff, List.forall₂_nil_left_iff]
  | cons x xs ih =>
    obtain ⟨hx, hxs⟩ := List.forall_mem_cons.mp h
    simp only [List.forall₂_cons_left_iff, hx, ih hxs]

/-- Texts that are made of others, one of each. -/
theorem forall₂_exists_iff {δ : Type} {g : γ → δ} {xs : List α} {ds : List δ} :
    List.Forall₂ (fun x d => ∃ t, R x t ∧ d = g t) xs ds ↔
      ∃ ts, List.Forall₂ R xs ts ∧ ds = ts.map g := by
  constructor
  · intro h
    induction h with
    | nil => exact ⟨[], .nil, rfl⟩
    | cons hd _ ih =>
      obtain ⟨t, ht, rfl⟩ := hd
      obtain ⟨ts, hts, rfl⟩ := ih
      exact ⟨t :: ts, .cons ht hts, rfl⟩
  · rintro ⟨ts, hts, rfl⟩
    rw [List.forall₂_map_right_iff]
    exact hts.imp fun _ t ht => ⟨t, ht, rfl⟩

end Texts

namespace Heap

/-! ## What is rendered -/

section Rendered

variable {h : Heap} {levels cell : Nat} {quoted : Bool} {v : Value} {text : String}

/-- The text of an entry of a dict, from those of its key and its value. -/
def entryText (t : String × String) : String := t.1 ++ ": " ++ t.2

theorem bind_ok_eq_ok_iff {ε α β : Type} {x : Except ε α} {g : α → β} {b : β} :
    (x >>= fun a => .ok (g a)) = .ok b ↔ ∃ a, x = .ok a ∧ b = g a := by
  cases x with
  | error e =>
    constructor
    · intro hb
      cases hb
    · rintro ⟨a, ha, -⟩
      cases ha
  | ok a =>
    constructor
    · intro hb
      exact ⟨a, rfl, (Except.ok.inj hb).symm⟩
    · rintro ⟨a, ha, rfl⟩
      cases ha
      rfl

theorem render_list_eq_ok_iff :
    h.render (levels + 1) quoted (.list cell) = .ok text ↔
      ∃ texts, List.Forall₂ (fun u t => h.render levels true u = .ok t) (h.listAt cell) texts ∧
        text = "[" ++ commaSeparated texts ++ "]" := by
  simp only [← mapM_eq_ok_iff]
  rw [render, bind_ok_eq_ok_iff]

theorem render_tuple_eq_ok_iff {items : List Value} :
    h.render (levels + 1) quoted (.tuple items) = .ok text ↔
      ∃ texts, List.Forall₂ (fun u t => h.render levels true u = .ok t) items texts ∧
        text = "(" ++ commaSeparated texts ++ if texts.length = 1 then ",)" else ")" := by
  rw [render, bind_ok_eq_ok_iff]
  refine exists_congr fun texts => ?_
  rw [mapM_eq_ok_iff]
  refine and_congr_right fun htexts => ?_
  rw [htexts.length_eq]

/-- The text of an entry is made of those of its key and its value. -/
theorem entry_eq_ok_iff {e : Value × Value} :
    (h.render levels true e.1 >>= fun key => h.render levels true e.2 >>= fun value =>
        .ok (key ++ ": " ++ value)) = .ok text ↔
      ∃ t : String × String, (h.render levels true e.1 = .ok t.1 ∧
        h.render levels true e.2 = .ok t.2) ∧ text = entryText t := by
  cases h.render levels true e.1 with
  | error fault =>
    constructor
    · intro htext
      cases htext
    · rintro ⟨t, ⟨hkey, -⟩, -⟩
      cases hkey
  | ok key =>
    refine Iff.trans (bind_ok_eq_ok_iff (g := fun value => key ++ ": " ++ value)) ?_
    constructor
    · rintro ⟨value, hvalue, rfl⟩
      exact ⟨(key, value), ⟨rfl, hvalue⟩, rfl⟩
    · rintro ⟨t, ⟨hkey, hvalue⟩, rfl⟩
      exact ⟨t.2, hvalue, by rw [entryText, Except.ok.inj hkey]⟩

theorem render_dict_eq_ok_iff :
    h.render (levels + 1) quoted (.dict cell) = .ok text ↔
      ∃ texts : List (String × String),
        List.Forall₂ (fun e t => h.render levels true e.1 = .ok t.1 ∧
          h.render levels true e.2 = .ok t.2) (h.dictAt cell) texts ∧
        text = "\x7b" ++ commaSeparated (texts.map entryText) ++ "\x7d" := by
  rw [render, bind_ok_eq_ok_iff]
  simp only [mapM_eq_ok_iff, entry_eq_ok_iff, forall₂_exists_iff]
  constructor
  · rintro ⟨_, ⟨texts, htexts, rfl⟩, rfl⟩
    exact ⟨texts, htexts, rfl⟩
  · rintro ⟨texts, htexts, rfl⟩
    exact ⟨_, ⟨texts, htexts, rfl⟩, rfl⟩

/-- A container that no level is left for shows as dots. -/
theorem render_zero (hv : v.isContainer) : h.render 0 quoted v = .ok "..." := by
  cases v with
  | list cell => rfl
  | tuple items => rfl
  | dict cell => rfl
  | _ => contradiction

/-- Every value whose objects describe themselves has a text. -/
theorem exists_render (hd : h.Describes v) (levels : Nat) (quoted : Bool) :
    ∃ text, h.render levels quoted v = .ok text := by
  induction levels generalizing v quoted with
  | zero =>
    cases v with
    | object cell =>
      obtain ⟨o, text, ho, hdescribe⟩ := hd [] cell rfl
      exact ⟨text, by rw [render, ho]; exact hdescribe⟩
    | _ => exact ⟨_, rfl⟩
  | succ levels ih =>
    cases v with
    | object cell =>
      obtain ⟨o, text, ho, hdescribe⟩ := hd [] cell rfl
      exact ⟨text, by rw [render, ho]; exact hdescribe⟩
    | list cell =>
      have hitems : ∀ u ∈ h.listAt cell, ∃ t, h.render levels true u = .ok t := by
        intro u hu
        obtain ⟨c, hc⟩ := exists_child_of_mem_listAt hu
        exact ih (hd.child hc) true
      obtain ⟨texts, htexts⟩ := exists_forall₂ hitems
      exact ⟨_, render_list_eq_ok_iff.mpr ⟨texts, htexts, rfl⟩⟩
    | tuple items =>
      have hitems : ∀ u ∈ items, ∃ t, h.render levels true u = .ok t := by
        intro u hu
        obtain ⟨c, hc⟩ := exists_child_of_mem_items (h := h) hu
        exact ih (hd.child hc) true
      obtain ⟨texts, htexts⟩ := exists_forall₂ hitems
      exact ⟨_, render_tuple_eq_ok_iff.mpr ⟨texts, htexts, rfl⟩⟩
    | dict cell =>
      have hentries : ∀ e ∈ h.dictAt cell, ∃ t : String × String,
          h.render levels true e.1 = .ok t.1 ∧ h.render levels true e.2 = .ok t.2 := by
        intro e he
        obtain ⟨⟨c, hkey⟩, d, hvalue⟩ := exists_child_of_mem_dictAt he
        obtain ⟨key, hkey⟩ := ih (hd.child hkey) true
        obtain ⟨value, hvalue⟩ := ih (hd.child hvalue) true
        exact ⟨(key, value), hkey, hvalue⟩
      obtain ⟨texts, htexts⟩ := exists_forall₂ hentries
      exact ⟨_, render_dict_eq_ok_iff.mpr ⟨texts, htexts, rfl⟩⟩
    | _ => exact ⟨_, rfl⟩

end Rendered

/-! ## The rules and what is rendered -/

section Rules

variable {h : Heap} {elided : Nat → Prop} {depth levels cell : Nat} {quoted : Bool} {v : Value}
  {text : String}

theorem writes_container_iff (hdepth : elided depth) (hv : v.isContainer) :
    h.Writes elided depth quoted v text ↔ text = "..." := by
  constructor
  · intro hw
    cases hw
    all_goals first | rfl | contradiction
  · rintro rfl
    exact .dots quoted hv hdepth

theorem writes_list_iff (hdepth : ¬elided depth) :
    h.Writes elided depth quoted (.list cell) text ↔
      ∃ texts, List.Forall₂ (h.Writes elided (depth + 1) true) (h.listAt cell) texts ∧
        text = "[" ++ commaSeparated texts ++ "]" := by
  simp only [commaSeparated_eq, List.forall₂_iff_zip]
  constructor
  · intro hw
    cases hw with
    | dots _ _ hd => exact absurd hd hdepth
    | list _ _ hlength hitems => exact ⟨_, ⟨hlength.symm, fun he => hitems _ he⟩, rfl⟩
  · rintro ⟨texts, ⟨hlength, hitems⟩, rfl⟩
    exact .list quoted hdepth hlength.symm fun e he => hitems he

theorem writes_tuple_iff {items : List Value} (hdepth : ¬elided depth) :
    h.Writes elided depth quoted (.tuple items) text ↔
      ∃ texts, List.Forall₂ (h.Writes elided (depth + 1) true) items texts ∧
        text = "(" ++ commaSeparated texts ++ if texts.length = 1 then ",)" else ")" := by
  constructor
  · intro hw
    cases hw with
    | dots _ _ hd => exact absurd hd hdepth
    | single _ _ hitem => exact ⟨[_], .cons hitem .nil, by simp [commaSeparated]⟩
    | tuple _ _ hmany hlength hitems =>
      refine ⟨_, List.forall₂_iff_zip.mpr ⟨hlength.symm, fun he => hitems _ he⟩, ?_⟩
      rw [commaSeparated_eq, if_neg (by rwa [hlength])]
  · rintro ⟨texts, htexts, rfl⟩
    by_cases hone : texts.length = 1
    · rw [if_pos hone]
      obtain ⟨text, rfl⟩ := List.length_eq_one_iff.mp hone
      cases htexts with
      | cons hitem hrest =>
        cases hrest
        have hw := Writes.single quoted hdepth hitem
        simpa [commaSeparated] using hw
    · obtain ⟨hlength, hitems⟩ := List.forall₂_iff_zip.mp htexts
      rw [if_neg hone, commaSeparated_eq]
      exact .tuple quoted hdepth (hlength ▸ hone) hlength.symm fun e he => hitems he

theorem writes_dict_iff (hdepth : ¬elided depth) :
    h.Writes elided depth quoted (.dict cell) text ↔
      ∃ texts : List (String × String),
        List.Forall₂ (fun e t => h.Writes elided (depth + 1) true e.1 t.1 ∧
          h.Writes elided (depth + 1) true e.2 t.2) (h.dictAt cell) texts ∧
        text = "\x7b" ++ commaSeparated (texts.map entryText) ++ "\x7d" := by
  simp only [commaSeparated_eq, List.forall₂_iff_zip]
  constructor
  · intro hw
    cases hw with
    | dots _ _ hd => exact absurd hd hdepth
    | dict _ _ hlength hkeys hvalues =>
      exact ⟨_, ⟨hlength.symm, fun he => ⟨hkeys _ he, hvalues _ he⟩⟩, rfl⟩
  · rintro ⟨texts, ⟨hlength, hentries⟩, rfl⟩
    exact .dict quoted hdepth hlength.symm (fun e he => (hentries he).1)
      fun e he => (hentries he).2

/-- What is no container shows the same at every depth. -/
theorem writes_iff_render_of_not_isContainer (hd : h.Describes v) (hv : v.isContainer = false)
    (levels : Nat) :
    h.Writes elided depth quoted v text ↔ h.render levels quoted v = .ok text := by
  constructor
  · intro hw
    cases hw with
    | object _ _ ho hdescribe => rw [render, ho]; exact hdescribe
    | dots _ hcontainer _ => rw [hv] at hcontainer; contradiction
    | list _ _ _ _ => contradiction
    | single _ _ _ => contradiction
    | tuple _ _ _ _ _ => contradiction
    | dict _ _ _ _ _ => contradiction
    | _ => simp [render]
  · intro htext
    cases v with
    | list cell => contradiction
    | tuple items => contradiction
    | dict cell => contradiction
    | object cell =>
      obtain ⟨o, description, ho, -⟩ := hd [] cell rfl
      rw [render, ho] at htext
      exact .object depth quoted ho htext
    | bool b =>
      rw [render] at htext
      cases b <;> cases htext
      · exact .no depth quoted
      · exact .yes depth quoted
    | str s =>
      rw [render] at htext
      cases quoted <;> cases htext
      · exact .bare depth s
      · exact .quoted depth s
    | _ =>
      rw [render] at htext
      cases htext
      constructor

/-- The rules give what is rendered with so many levels, where they elide no container sooner, and
at that depth either elide them or meet none. -/
theorem writes_iff_render (hd : h.Describes v) (hwritten : ∀ k < levels, ¬elided (depth + k))
    (hcut : elided (depth + levels) ∨ h.NestsAtMost levels v) :
    h.Writes elided depth quoted v text ↔ h.render levels quoted v = .ok text := by
  induction levels generalizing v depth quoted text with
  | zero =>
    by_cases hv : v.isContainer
    · have hdepth : elided depth := by
        refine hcut.resolve_right fun hn => ?_
        rw [hn [] v rfl rfl] at hv
        contradiction
      rw [writes_container_iff hdepth hv, render_zero hv]
      exact ⟨fun htext => by rw [htext], fun htext => (Except.ok.inj htext).symm⟩
    · exact writes_iff_render_of_not_isContainer hd (Bool.eq_false_iff.mpr hv) 0
  | succ levels ih =>
    have hdepth : ¬elided depth := hwritten 0 (Nat.succ_pos levels)
    -- what stands inside is one level deeper and has one level less, so it ends at the same depth
    have hchild {c : Child} {u : Value} (hu : h.child? v c = some u) (t : String) :
        h.Writes elided (depth + 1) true u t ↔ h.render levels true u = .ok t := by
      refine ih (hd.child hu) (fun k hk => ?_) (hcut.imp (fun hd => ?_) fun hn => hn.child hu)
      · rw [Nat.add_assoc, Nat.add_comm 1 k]
        exact hwritten (k + 1) (Nat.succ_lt_succ hk)
      · rwa [Nat.add_assoc, Nat.add_comm 1 levels]
    cases v with
    | list cell =>
      rw [writes_list_iff hdepth, render_list_eq_ok_iff]
      refine exists_congr fun texts => and_congr_left' (forall₂_congr_of_mem fun u hu t => ?_)
      obtain ⟨c, hc⟩ := exists_child_of_mem_listAt hu
      exact hchild hc t
    | tuple items =>
      rw [writes_tuple_iff hdepth, render_tuple_eq_ok_iff]
      refine exists_congr fun texts => and_congr_left' (forall₂_congr_of_mem fun u hu t => ?_)
      obtain ⟨c, hc⟩ := exists_child_of_mem_items (h := h) hu
      exact hchild hc t
    | dict cell =>
      rw [writes_dict_iff hdepth, render_dict_eq_ok_iff]
      refine exists_congr fun texts => and_congr_left' (forall₂_congr_of_mem fun e he t => ?_)
      obtain ⟨⟨c, hc⟩, d, hd⟩ := exists_child_of_mem_dictAt he
      exact and_congr (hchild hc t.1) (hchild hd t.2)
    | _ => exact writes_iff_render_of_not_isContainer hd rfl (levels + 1)

end Rules

end Heap

end CallSampler
