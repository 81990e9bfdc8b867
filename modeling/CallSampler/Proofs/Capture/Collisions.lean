import CallSampler.Proofs.Capture.Positions
import CallSampler.Proofs.Value.Dicts

/-!
# Captures of named values

A dict, or an object that tells its attributes, is captured as an object of the document, and
nothing else is (`captured_object_iff`). Its entries are captured one after the other, each to a
name and an image, and where names collide the first one gives the place and the last one the image
(`Merges`). A dict that inserts have filled has no collisions if its keys are all strings, or all
none, truth values and integers: such keys are the same when their texts are
(`sameKey_of_plainText_atoms`, `sameKey_of_plainText_strings`).
-/

namespace CallSampler

theorem Run.Each.mapM {σ ε α β : Type} {f : α → Run σ ε β} {xs : List α} {ys : List β} {s s' : σ}
    (h : Run.Each f xs s ys s') : xs.mapM f s = (.ok ys, s') := by
  induction h with
  | nil => rfl
  | cons first _ ih => simp only [List.mapM_cons, Run.bind_apply, first, ih, Run.pure_apply]

/-! ## Collisions -/

/-- The fields that named images leave. -/
structure Merges (images fields : List (String × Json)) : Prop where
  /-- There is one field for each name, in the order of first occurrence. -/
  keys : Entries.keys fields = (Entries.keys images).eraseDups
  /-- Each field is the last image of its name. -/
  last : ∀ field ∈ fields, ∃ before after, images = before ++ field :: after ∧
    field.1 ∉ Entries.keys after

section Merging

variable {images fields : List (String × Json)} {field : String × Json}

theorem find?_reverse_eq_some_iff : Entries.find? (· == field.1) images.reverse = some field.2 ↔
    ∃ before after, images = before ++ field :: after ∧ field.1 ∉ Entries.keys after := by
  rw [Entries.find?_eq_some_iff_append]
  constructor
  all_goals
    rintro ⟨before, after, heq, hmem⟩
    refine ⟨after.reverse, before.reverse, ?_, by simpa [Entries.keys] using hmem⟩
  · rw [← List.reverse_reverse images, heq]
    simp
  · rw [heq]
    simp

theorem merges_iff : Merges images fields ↔ fields = Entries.ofAssignments images := by
  have hkeys := Entries.keys_ofAssignments images
  have hn := Entries.nodup_keys_ofAssignments images
  constructor
  · intro h
    have hsame := h.keys.trans hkeys.symm
    have hn' : (Entries.keys fields).Nodup := hsame ▸ hn
    refine Entries.eq_of_find? hn' hsame fun k hk => ?_
    obtain ⟨field, hfield, rfl⟩ := List.mem_map.mp hk
    rw [Entries.find?_of_mem hn' hfield, Entries.find?_ofAssignments]
    exact (find?_reverse_eq_some_iff.mpr (h.last field hfield)).symm
  · rintro rfl
    refine ⟨hkeys, fun field hfield => ?_⟩
    rw [← find?_reverse_eq_some_iff, ← Entries.find?_ofAssignments]
    exact Entries.find?_of_mem hn hfield

/-- Where no name occurs twice, the images are the fields. -/
theorem merges_iff_of_nodup (h : (Entries.keys images).Nodup) :
    Merges images fields ↔ fields = images := by
  rw [merges_iff, Entries.ofAssignments_of_nodup h]

end Merging

/-! ## Captures of entries -/

section Captures

variable {o : Overflow} {answer : Answering} {inner : Value → Host Json} {maxDepth depth : UInt64}
  {cell : Nat} {v : Value} {w w' : World} {fields : List (String × Json)}

variable (answer inner) in
/-- The named images of the values inside a dict, or inside an object that answers with attributes,
captured one after the other. Callable objects are not asked. -/
inductive CapturesNamed (w : World) : Value → List (String × Json) → World → Prop
  | dict {cell : Nat} {images : List (String × Json)} {w' : World}
    (each : Run.Each (captureEntry inner) (w.heap.dictAt cell) w images w') :
    CapturesNamed w (.dict cell) images w'
  | object {cell : Nat} {o : Object} {attributes : List (String × Value)} {w₁ w' : World}
    {images : List (String × Json)} (found : w.heap.object? cell = some o)
    (passive : o.callable = false) (answered : answer o w = (.ok (some attributes), w₁))
    (each : Run.Each (captureAttribute inner) (attributes.filter fun a => isPublic a.1) w₁ images
      w') :
    CapturesNamed w (.object cell) images w'

theorem captureDescription_ne_object (o : Object) : captureDescription o ≠ Json.object fields := by
  unfold captureDescription
  split <;> exact nofun

theorem exists_images {ι : Type} {f : ι → Host (String × Json)} {items : List ι}
    (h : (items.mapM f >>= fun images => pure (Json.object (Entries.ofAssignments images))) w =
      (.ok (.object fields), w')) :
    ∃ images, Run.Each f items w images w' ∧ Merges images fields := by
  obtain ⟨images, w₁, himages, h⟩ := Run.bind_eq_ok h
  cases h
  exact ⟨images, Run.each_of_mapM himages, merges_iff.mpr rfl⟩

/-- Nothing but a dict or an object with attributes is captured as an object. -/
theorem exists_capturesNamed (h : captureNode answer inner v w = (.ok (.object fields), w')) :
    ∃ images, CapturesNamed answer inner w v images w' ∧ Merges images fields := by
  cases v with
  | dict cell =>
    rw [captureNode_dict] at h
    obtain ⟨images, heach, hmerges⟩ := exists_images h
    exact ⟨images, .dict heach, hmerges⟩
  | object cell =>
    cases ho : w.heap.object? cell with
    | none =>
      rw [captureNode_missing ho] at h
      cases h
    | some o =>
      cases hc : o.callable with
      | true =>
        rw [captureNode_callable ho hc] at h
        cases h
      | false =>
        rw [captureNode_object ho hc] at h
        obtain ⟨attributes?, w₁, hanswer, h⟩ := Run.bind_eq_ok h
        cases attributes? with
        | none => exact absurd (Outcome.ok.inj (Prod.mk.inj h).1) (captureDescription_ne_object o)
        | some attributes =>
          obtain ⟨images, heach, hmerges⟩ := exists_images h
          exact ⟨images, .object ho hc hanswer heach, hmerges⟩
  | list cell =>
    rw [captureNode_list] at h
    obtain ⟨images, w₁, -, h⟩ := Run.bind_eq_ok h
    cases h
  | tuple items =>
    rw [captureNode_tuple] at h
    obtain ⟨images, w₁, -, h⟩ := Run.bind_eq_ok h
    cases h
  | float x =>
    have hfloat : captureFloat x = .object fields := Outcome.ok.inj (Prod.mk.inj h).1
    unfold captureFloat at hfloat
    split at hfloat <;> cases hfloat
  | _ => cases h

theorem captureNode_object_iff : captureNode answer inner v w = (.ok (.object fields), w') ↔
    ∃ images, CapturesNamed answer inner w v images w' ∧ Merges images fields := by
  refine ⟨exists_capturesNamed, ?_⟩
  rintro ⟨images, hnamed, hmerges⟩
  rw [merges_iff] at hmerges
  subst hmerges
  cases hnamed with
  | dict each =>
    rw [captureNode_dict, Run.bind_apply, each.mapM]
    rfl
  | object found passive answered each =>
    rw [captureNode_object found passive, Run.bind_apply, answered]
    dsimp only
    rw [Run.bind_apply, each.mapM]
    rfl

/-- The marker is no object, so the value stands above the limit. -/
theorem captured_object_iff : captureAt o answer maxDepth depth v w = (.ok (.object fields), w') ↔
    depth ≤ maxDepth ∧ ∃ images,
      CapturesNamed answer (captureBelow o answer maxDepth depth) w v images w' ∧
        Merges images fields := by
  by_cases hdepth : depth ≤ maxDepth
  · rw [captureAt_of_le hdepth, captureNode_object_iff]
    exact (and_iff_right hdepth).symm
  · rw [captureAt_of_lt (UInt64.not_le.mp hdepth)]
    exact ⟨nofun, fun h => absurd h.1 hdepth⟩

/-! ## Names -/

theorem keys_of_captureAttribute {attributes : List (String × Value)} {images}
    (h : Run.Each (captureAttribute inner) attributes w images w') :
    Entries.keys images = Entries.keys attributes := by
  induction h with
  | nil => rfl
  | cons first _ ih =>
    obtain ⟨image, w₁, -, hname⟩ := Run.bind_eq_ok first
    cases hname
    rw [Entries.keys_cons, Entries.keys_cons, ih]

/-- The text of a key that is a string, none, a truth value or an integer. -/
def Value.plainText : Value → Option String
  | .none => some "None"
  | .bool b => some (if b then "True" else "False")
  | .int i => some (toString i.toInt)
  | .str s => some s
  | _ => Option.none

/-- The keys are all strings, or all none, truth values and integers. -/
def PlainKeys (entries : List (Value × Value)) : Prop :=
  (∀ e ∈ entries, e.1.kind = .str) ∨ ∀ e ∈ entries, e.1.kind ∈ [.none, .bool, .int]

theorem keyText_of_plainText {key : Value} {text : String} (h : key.plainText = some text)
    (heap : Heap) : heap.keyText key = .ok text := by
  cases key with
  | none | bool _ | int _ | str _ =>
    rw [← Option.some.inj h]
    rfl
  | _ => cases h

theorem PlainKeys.exists_plainText {entries : List (Value × Value)} (h : PlainKeys entries)
    {e : Value × Value} (he : e ∈ entries) : ∃ text, e.1.plainText = some text := by
  have hkind : e.1.kind = .str ∨ e.1.kind ∈ [.none, .bool, .int] :=
    h.imp (fun h => h e he) fun h => h e he
  cases hv : e.1 with
  | none | bool _ | int _ | str _ => exact ⟨_, rfl⟩
  | _ => simp [hv, Value.kind] at hkind

theorem toString_ne_of_toInt?_eq_none {text : String} (hs : text.toInt? = none) (i : Int) :
    toString i ≠ text := by
  rintro rfl
  rw [Int.toString_eq_repr, Int.toInt?_repr] at hs
  cases hs

/-- Neither none nor a truth value has the text of an integer. -/
theorem sameKey_of_plainText_atoms {a b : Value} (ha : a.kind ∈ [.none, .bool, .int])
    (hb : b.kind ∈ [.none, .bool, .int]) (h : a.plainText = b.plainText) :
    Value.sameKey a b = true := by
  have hnone : ∀ i : Int, toString i ≠ "None" := toString_ne_of_toInt?_eq_none (by cbv)
  have hbool : ∀ (c : Bool) (i : Int), toString i ≠ if c then "True" else "False" :=
    fun c => toString_ne_of_toInt?_eq_none (by cases c <;> cbv)
  cases a with
  | none =>
    cases b with
    | none => rfl
    | bool c => cases c <;> simp [Value.plainText] at h
    | int i => exact absurd (Option.some.inj h).symm (hnone i.toInt)
    | _ => simp [Value.kind] at hb
  | bool c =>
    cases b with
    | none => cases c <;> simp [Value.plainText] at h
    | bool d => cases c <;> cases d <;> simp [Value.plainText] at h <;> rfl
    | int i => exact absurd (Option.some.inj h).symm (hbool c i.toInt)
    | _ => simp [Value.kind] at hb
  | int i =>
    cases b with
    | none => exact absurd (Option.some.inj h) (hnone i.toInt)
    | bool c => exact absurd (Option.some.inj h) (hbool c i.toInt)
    | int j =>
      have hrepr : i.toInt.repr = j.toInt.repr := by
        rw [← Int.toString_eq_repr, ← Int.toString_eq_repr]
        exact Option.some.inj h
      exact beq_iff_eq.mpr (Int64.toInt_inj.mp (Int.repr_injective hrepr))
    | _ => simp [Value.kind] at hb
  | _ => simp [Value.kind] at ha

theorem sameKey_of_plainText_strings {a b : Value} (ha : a.kind = .str) (hb : b.kind = .str)
    (h : a.plainText = b.plainText) : Value.sameKey a b = true := by
  cases a with
  | str s =>
    cases b with
    | str t => exact beq_iff_eq.mpr (Option.some.inj h)
    | _ => cases hb
  | _ => cases ha

/-- Plain keys that are separate have different texts. -/
theorem PlainKeys.nodup_plainText {entries : List (Value × Value)} (h : PlainKeys entries)
    (hs : Entries.Separate Value.sameKey entries) :
    (entries.map fun e => e.1.plainText).Nodup := by
  have hsame : ∀ e ∈ entries, ∀ f ∈ entries, e.1.plainText = f.1.plainText →
      Value.sameKey e.1 f.1 = true := by
    intro e he f hf
    rcases h with h | h
    · exact sameKey_of_plainText_strings (h e he) (h f hf)
    · exact sameKey_of_plainText_atoms (h e he) (h f hf)
  refine List.pairwise_map.mpr ((List.pairwise_map.mp hs).imp_of_mem ?_)
  intro e f he hf hne htext
  rw [hsame e he f hf htext] at hne
  cases hne

theorem plainText_of_captureEntry {e : Value × Value} {image : String × Json} {text : String}
    (h : captureEntry inner e w = (.ok image, w'))
    (htext : e.1.plainText = some text) : image.1 = text := by
  obtain ⟨key, w₁, hkey, h⟩ := Run.bind_eq_ok h
  obtain ⟨j, w₂, -, h⟩ := Run.bind_eq_ok h
  cases h
  rw [renderKey, Run.bind_apply, Run.inspect, keyText_of_plainText htext] at hkey
  exact (Outcome.ok.inj (Prod.mk.inj hkey).1).symm

/-- Plain keys are captured under their texts. -/
theorem PlainKeys.keys_images {entries : List (Value × Value)} {images : List (String × Json)}
    (h : PlainKeys entries)
    (heach : Run.Each (captureEntry inner) entries w images w') :
    (Entries.keys images).map some = entries.map fun e => e.1.plainText := by
  have hplain : ∀ e ∈ entries, ∃ text, e.1.plainText = some text := fun e => h.exists_plainText
  clear h
  induction heach with
  | nil => rfl
  | cons first _ ih =>
    obtain ⟨⟨text, htext⟩, hrest⟩ := List.forall_mem_cons.mp hplain
    rw [Entries.keys_cons, List.map_cons, List.map_cons, ih hrest,
      plainText_of_captureEntry first htext, htext]

/-! ## Where nothing stands in the way -/

/-- There are depths enough to capture a value from one on: the limit is not the greatest word, or
no more containers are nested in the value than depths are left. -/
def DepthsSuffice (answer : Answering) (w : World) (maxDepth depth : UInt64) (v : Value) : Prop :=
  maxDepth + 1 ≠ 0 ∨ NestsWithin answer w (maxDepth - depth).toNat v

/-- What is inside of a value that answers can be captured, and leaves the world alone. -/
theorem exists_captureBelow {us : List Value} (h : Answers answer w v)
    (hsuffice : DepthsSuffice answer w maxDepth depth v) (hdepth : depth ≤ maxDepth)
    (hus : contents? answer w v = some us) {u : Value} (hu : u ∈ us) :
    ∃ j, captureBelow o answer maxDepth depth u w = (.ok j, w) := by
  have hanswers := h.contents hus u hu
  obtain hmax | hnests := hsuffice
  · have hnext : depth + 1 ≠ 0 := Word.add_one_ne_zero_of_le hdepth hmax
    obtain ⟨j, hj⟩ := exists_tracks (maxDepth.toNat + 1 - (depth + 1).toNat) hanswers
    refine ⟨j, ?_⟩
    rw [captureBelow_of_ne hnext, captureAt_eq_levels hmax]
    exact hj.captured
  · obtain ⟨n, hroom, hinside⟩ := hnests.contents hus
    rw [UInt64.toNat_sub_of_le _ _ hdepth] at hroom
    have hnext : depth + 1 ≠ 0 := by
      have hlt := Word.toNat_lt maxDepth
      rw [Word.add_one_ne_zero_iff]
      omega
    have hlevels : maxDepth.toNat + 1 - (depth + 1).toNat = n + 1 := by
      rw [Word.toNat_add_one_of_ne hnext]
      omega
    obtain ⟨beyond, hdown⟩ := exists_captureAt_eq_down o answer maxDepth (depth + 1)
    obtain ⟨j, hj⟩ := exists_tracks (n + 1) hanswers
    refine ⟨j, ?_⟩
    rw [captureBelow_of_ne hnext, hdown, hlevels]
    exact hj.whole n (hinside u hu) (Nat.lt_succ_self n) beyond

/-- A dict whose keys have a text is captured to their texts and to what its values are captured
to. -/
theorem captureNode_dict_of_forall (answer : Answering)
    (hkeys : ∀ e ∈ w.heap.dictAt cell, ∃ text, w.heap.keyText e.1 = .ok text)
    (hvalues : ∀ e ∈ w.heap.dictAt cell, ∃ j, inner e.2 w = (.ok j, w)) :
    ∃ images, captureNode answer inner (.dict cell) w =
        (.ok (.object (Entries.ofAssignments images)), w) ∧
      List.Forall₂ (fun e image => w.heap.keyText e.1 = .ok image.1 ∧
          inner e.2 w = (.ok image.2, w)) (w.heap.dictAt cell) images := by
  have hentries : ∀ e ∈ w.heap.dictAt cell, ∃ image : String × Json,
      w.heap.keyText e.1 = .ok image.1 ∧ inner e.2 w = (.ok image.2, w) := by
    intro e he
    obtain ⟨text, htext⟩ := hkeys e he
    obtain ⟨j, hj⟩ := hvalues e he
    exact ⟨(text, j), htext, hj⟩
  obtain ⟨images, himages⟩ := exists_forall₂ hentries
  refine ⟨images, ?_, himages⟩
  rw [captureNode_dict, Run.bind_apply, Run.mapM_of_forall₂ (himages.imp ?_)]
  · rfl
  · rintro e image ⟨htext, hj⟩
    simp only [captureEntry, renderKey, Run.bind_apply, Run.inspect, htext, hj, Run.pure_apply]

/-- The public attributes of an object are captured to their names and to what the values are
captured to. -/
theorem captureNode_object_of_forall {o : Object} {attributes : List (String × Value)}
    (ho : w.heap.object? cell = some o) (hc : o.callable = false)
    (ha : answer o w = (.ok (some attributes), w))
    (hvalues : ∀ a ∈ attributes.filter fun a => isPublic a.1, ∃ j, inner a.2 w = (.ok j, w)) :
    ∃ images, captureNode answer inner (.object cell) w =
        (.ok (.object (Entries.ofAssignments images)), w) ∧
      List.Forall₂ (fun a image => a.1 = image.1 ∧ inner a.2 w = (.ok image.2, w))
        (attributes.filter fun a => isPublic a.1) images := by
  have hattributes : ∀ a ∈ attributes.filter fun a => isPublic a.1, ∃ image : String × Json,
      a.1 = image.1 ∧ inner a.2 w = (.ok image.2, w) := by
    intro a hmem
    obtain ⟨j, hj⟩ := hvalues a hmem
    exact ⟨(a.1, j), rfl, hj⟩
  obtain ⟨images, himages⟩ := exists_forall₂ hattributes
  refine ⟨images, ?_, himages⟩
  rw [captureNode_object ho hc, Run.bind_apply, ha]
  dsimp only
  rw [Run.bind_apply, Run.mapM_of_forall₂ (himages.imp ?_)]
  · rfl
  · rintro a image ⟨hname, hj⟩
    simp only [captureAttribute, Run.bind_apply, hj, Run.pure_apply, hname]

/-- A dict with plain keys that inserts have filled is captured entry by entry. -/
theorem captured_plainKeys_iff (hfilled : w.heap.FilledByInserts cell)
    (hplain : PlainKeys (w.heap.dictAt cell)) :
    captureAt o answer maxDepth depth (.dict cell) w = (.ok (.object fields), w') ↔
      depth ≤ maxDepth ∧ Run.Each (captureEntry (captureBelow o answer maxDepth depth))
        (w.heap.dictAt cell) w fields w' := by
  have hnodup : ∀ {images w'}, Run.Each (captureEntry (captureBelow o answer maxDepth depth))
      (w.heap.dictAt cell) w images w' → (Entries.keys images).Nodup := by
    intro images w' heach
    refine List.Nodup.of_map some ?_
    rw [hplain.keys_images heach]
    exact hplain.nodup_plainText (Heap.separate_of_filledByInserts hfilled)
  rw [captured_object_iff]
  refine and_congr_right fun _ => ⟨?_, fun heach => ?_⟩
  · rintro ⟨images, ⟨heach⟩, hmerges⟩
    rw [(merges_iff_of_nodup (hnodup heach)).mp hmerges]
    exact heach
  · exact ⟨fields, .dict heach, (merges_iff_of_nodup (hnodup heach)).mpr rfl⟩

/-- The public names of the attributes, once each, in the order of first occurrence. -/
theorem keys_of_captured_object {obj : Object} {attributes : List (String × Value)} {w₁ : World}
    (hobj : w.heap.object? cell = some obj) (ha : answer obj w = (.ok (some attributes), w₁))
    (h : captureAt o answer maxDepth depth (.object cell) w = (.ok (.object fields), w')) :
    Entries.keys fields = ((Entries.keys attributes).filter isPublic).eraseDups := by
  obtain ⟨-, images, hnamed, hmerges⟩ := captured_object_iff.mp h
  cases hnamed with
  | object found passive answered each =>
    cases found.symm.trans hobj
    cases answered.symm.trans ha
    rw [hmerges.keys, keys_of_captureAttribute each, Entries.keys, Entries.keys, List.filter_map]
    rfl

/-- The fields of a captured dict or object: one for each name, where the name first occurs, with
the image of the value that has the name last. Where all that is reached answers and there are
depths enough, there are such fields. If inserts have filled a dict and its keys are all strings, or
all none, truth values and integers, no names collide: each entry has its field, in the same
place. -/
theorem captured_fields (o : Overflow) (answer : Answering) (maxDepth depth : UInt64) (w : World) :
    (∀ v fields w', captureAt o answer maxDepth depth v w = (.ok (.object fields), w') ↔
      depth ≤ maxDepth ∧ ∃ images,
        CapturesNamed answer (captureBelow o answer maxDepth depth) w v images w' ∧
          Merges images fields) ∧
    (∀ cell obj attributes w₁ fields w', w.heap.object? cell = some obj →
      answer obj w = (.ok (some attributes), w₁) →
      captureAt o answer maxDepth depth (.object cell) w = (.ok (.object fields), w') →
      Entries.keys fields = ((Entries.keys attributes).filter isPublic).eraseDups) ∧
    (∀ cell, Answers answer w (.dict cell) →
      DepthsSuffice answer w maxDepth depth (.dict cell) → depth ≤ maxDepth → ∃ images fields,
        captureAt o answer maxDepth depth (.dict cell) w = (.ok (.object fields), w) ∧
        Merges images fields ∧
        List.Forall₂ (fun e image => w.heap.keyText e.1 = .ok image.1 ∧
            captureBelow o answer maxDepth depth e.2 w = (.ok image.2, w))
          (w.heap.dictAt cell) images) ∧
    (∀ cell obj attributes, Answers answer w (.object cell) →
      DepthsSuffice answer w maxDepth depth (.object cell) → depth ≤ maxDepth →
      w.heap.object? cell = some obj → obj.callable = false →
      answer obj w = (.ok (some attributes), w) → ∃ images fields,
        captureAt o answer maxDepth depth (.object cell) w = (.ok (.object fields), w) ∧
        Merges images fields ∧
        List.Forall₂ (fun a image => a.1 = image.1 ∧
            captureBelow o answer maxDepth depth a.2 w = (.ok image.2, w))
          (attributes.filter fun a => isPublic a.1) images) ∧
    (∀ cell, w.heap.FilledByInserts cell → PlainKeys (w.heap.dictAt cell) → ∀ fields w',
      captureAt o answer maxDepth depth (.dict cell) w = (.ok (.object fields), w') ↔
        depth ≤ maxDepth ∧
          (Entries.keys fields).map some = (w.heap.dictAt cell).map (fun e => e.1.plainText) ∧
          Run.Each (captureEntry (captureBelow o answer maxDepth depth)) (w.heap.dictAt cell) w
            fields w') := by
  refine ⟨fun v fields w' => captured_object_iff,
    fun cell obj attributes w₁ fields w' ho ha => keys_of_captured_object ho ha,
    fun cell h hsuffice hdepth => ?_, fun cell obj attributes h hsuffice hdepth ho hc ha => ?_,
    fun cell hfilled hplain fields w' => ?_⟩
  · obtain ⟨images, hcaptured, himages⟩ := captureNode_dict_of_forall answer h.at
      fun e he => exists_captureBelow h hsuffice hdepth rfl (List.mem_map_of_mem he)
    refine ⟨images, _, ?_, merges_iff.mpr rfl, himages⟩
    rw [captureAt_of_le hdepth, hcaptured]
  · have hcontents : contents? answer w (.object cell) =
        some ((attributes.filter fun a => isPublic a.1).map Prod.snd) := by
      simp only [contents?, ho, hc, ha, Bool.false_eq_true, if_false]
    obtain ⟨images, hcaptured, himages⟩ := captureNode_object_of_forall ho hc ha fun a hmem =>
      exists_captureBelow h hsuffice hdepth hcontents (List.mem_map_of_mem hmem)
    refine ⟨images, _, ?_, merges_iff.mpr rfl, himages⟩
    rw [captureAt_of_le hdepth, hcaptured]
  · rw [captured_plainKeys_iff hfilled hplain]
    exact and_congr_right fun _ => ⟨fun heach => ⟨hplain.keys_images heach, heach⟩, And.right⟩

/-- A dict with two keys of one text, one whose keys inserts made, the last of them under a key that
is there already, and an object that tells an attribute twice. -/
def colliding : World :=
  { World.empty with heap := { Heap.empty with
      dicts := #[[(.int 1, .str "int"), (.none, .int 0), (.str "1", .str "str")],
        [(.none, .int 9), (.bool true, .dict 0), (.int 1, .int 2)]]
      objects := #[{ typeName := "P"
                     attributes := .listed [("x", .int 1), ("_y", .dict 0), ("z", .int 3),
                       ("x", .int 4)]
                     callable := false, description := .byType }] } }

theorem captured_fields_colliding :
    captureAt .wraps (CallSampler.answer 0) 3 1 (.dict 0) colliding =
        (.ok (.object [("1", .string "str"), ("None", .number (.integer 0))]), colliding) ∧
      (∃ images, CapturesNamed (CallSampler.answer 0)
          (captureBelow .wraps (CallSampler.answer 0) 3 1) colliding (.dict 0) images colliding ∧
        Merges images [("1", .string "str"), ("None", .number (.integer 0))]) ∧
      Answers (CallSampler.answer 0) colliding (.dict 0) ∧
      DepthsSuffice (CallSampler.answer 0) colliding 3 1 (.dict 0) ∧
      (∃ images fields, captureAt .wraps (CallSampler.answer 0) 3 1 (.dict 0) colliding =
          (.ok (.object fields), colliding) ∧ Merges images fields ∧
        List.Forall₂ (fun e image => colliding.heap.keyText e.1 = .ok image.1 ∧
            captureBelow .wraps (CallSampler.answer 0) 3 1 e.2 colliding =
              (.ok image.2, colliding))
          (colliding.heap.dictAt 0) images) ∧
      Entries.keys [("x", Json.number (.integer 4)), ("z", .number (.integer 3))] =
        (["x", "_y", "z", "x"].filter isPublic).eraseDups ∧
      colliding.heap.FilledByInserts 1 ∧ PlainKeys (colliding.heap.dictAt 1) ∧
      ∃ fields, captureAt .wraps (CallSampler.answer 0) 3 3 (.dict 1) colliding =
          (.ok (.object fields), colliding) ∧
        Run.Each (captureEntry (captureBelow .wraps (CallSampler.answer 0) 3 3))
          (colliding.heap.dictAt 1) colliding fields colliding := by
  have hmax : (3 : UInt64) + 1 ≠ 0 := by decide
  obtain ⟨hcaptured, hnames, hdict, -, -⟩ :=
    captured_fields .wraps (CallSampler.answer 0) 3 1 colliding
  obtain ⟨-, -, -, -, hplain⟩ := captured_fields .wraps (CallSampler.answer 0) 3 3 colliding
  have hanswers : Answers (CallSampler.answer 0) colliding (.dict 0) := by
    refine answers_of_closed (S := fun u => u = .dict 0 ∨ u = .str "int" ∨ u = .int 0 ∨
      u = .str "str") ?_ (Or.inl rfl)
    rintro u (rfl | rfl | rfl | rfl)
    · refine ⟨fun e he => ?_, fun us hus => by cases hus; simp [colliding, Heap.dictAt]⟩
      have he : e = (.int 1, .str "int") ∨ e = (.none, .int 0) ∨ e = (.str "1", .str "str") := by
        simpa [colliding, Heap.dictAt] using he
      rcases he with rfl | rfl | rfl <;> exact ⟨_, rfl⟩
    all_goals exact ⟨trivial, fun us hus => by cases hus⟩
  have hfilled : colliding.heap.FilledByInserts 1 := by
    refine ⟨(((Heap.empty.newDict []).2).newDict []).2, [⟨.dict 1, .none, .int 0⟩,
      ⟨.dict 1, .bool true, .dict 0⟩, ⟨.dict 1, .int 1, .int 2⟩, ⟨.dict 1, .none, .int 9⟩], rfl, ?_⟩
    rfl
  have hkeys : PlainKeys (colliding.heap.dictAt 1) :=
    .inr (by simp [colliding, Heap.dictAt, Value.kind])
  have hfirst : captureAt .wraps (CallSampler.answer 0) 3 1 (.dict 0) colliding =
      (.ok (.object [("1", .string "str"), ("None", .number (.integer 0))]), colliding) := by
    rw [captureAt_eq_levels hmax]
    rfl
  obtain ⟨fields, hfields⟩ : ∃ fields, captureAt .wraps (CallSampler.answer 0) 3 3 (.dict 1)
      colliding = (.ok (.object fields), colliding) := by
    rw [captureAt_eq_levels hmax]
    exact ⟨_, rfl⟩
  have hobject : captureAt .wraps (CallSampler.answer 0) 3 1 (.object 0) colliding =
      (.ok (.object [("x", .number (.integer 4)), ("z", .number (.integer 3))]), colliding) := by
    rw [captureAt_eq_levels hmax]
    rfl
  exact ⟨hfirst, ((hcaptured _ _ _).mp hfirst).2, hanswers, .inl hmax,
    hdict 0 hanswers (.inl hmax) (by decide), hnames 0 _ _ _ _ _ rfl rfl hobject, hfilled, hkeys,
    fields, hfields, ((hplain 1 hfilled hkeys _ _).mp hfields).2.2⟩

end Captures

end CallSampler
