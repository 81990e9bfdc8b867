import CallSampler.Call
import CallSampler.Proofs.Calls.Kinds
import CallSampler.Proofs.Entries
import Mathlib.Data.List.Basic

/-!
# Arguments by position and by name

A function finds an argument by its position first and by its name otherwise; a capture goes through
the positions and then through the names. Both come to the same: at the index of a parameter lands
first what the function sees there, and a second value only if the parameter is also given by its
name (`filter_landing`). Which of the arguments are passed by name changes nothing at all, since
then the same values land at the same indices in the same order (`landing_split`).
-/

namespace CallSampler

namespace Arguments

/-! ## What lands at an index -/

section Landing

variable {args : Arguments} {paramNames : List String}

/-- The values that a capture goes through, each with the index that it lands at. -/
def landing (args : Arguments) (paramNames : List String) : List (Value × Nat) :=
  args.positional.zipIdx ++ namedArguments args paramNames

/-- The argument of a parameter that is given by its name. -/
def named? (args : Arguments) (paramNames : List String) (index : Nat) : Option Value :=
  (paramNames[index]?).bind fun name => Entries.get? name args.keywords

theorem filter_zipIdx {α : Type} (xs : List α) (start i : Nat) :
    (xs.zipIdx start).filter (·.2 == start + i) = (xs[i]?).toList.map fun x => (x, start + i) := by
  induction xs generalizing start i with
  | nil => rfl
  | cons x rest ih =>
    rw [List.zipIdx_cons]
    cases i with
    | zero =>
      have hrest : (rest.zipIdx (start + 1)).filter (·.2 == start + 0) = [] := by
        refine List.filter_eq_nil_iff.mpr fun p hp => ?_
        have hle := List.le_snd_of_mem_zipIdx hp
        simp only [beq_iff_eq]
        omega
      rw [List.filter_cons_of_pos (by simp), hrest]
      rfl
    | succ i =>
      have hi : start + (i + 1) = start + 1 + i := by omega
      rw [List.filter_cons_of_neg (by simp), hi, ih]
      rfl

/-- The names are gone through in the order of their indices, so those of one index can be picked
out first. -/
theorem filter_namedArguments (i : Nat) :
    (namedArguments args paramNames).filter (·.2 == i) =
      (args.named? paramNames i).toList.map fun v => (v, i) := by
  have hcomm : (namedArguments args paramNames).filter (·.2 == i) =
      (paramNames.zipIdx.filter (·.2 == i)).filterMap fun p =>
        (Entries.get? p.1 args.keywords).map fun v => (v, p.2) := by
    rw [namedArguments, List.filter_filterMap, List.filterMap_filter]
    refine List.filterMap_congr fun ⟨name, j⟩ _ => ?_
    cases hname : Entries.get? name args.keywords <;> by_cases hj : j = i <;>
      simp [Option.filter, hname, hj]
  have hzip := filter_zipIdx paramNames 0 i
  rw [Nat.zero_add] at hzip
  rw [hcomm, hzip, named?]
  cases paramNames[i]? with
  | none => rfl
  | some name => cases hname : Entries.get? name args.keywords <;> simp [hname]

/-- What is given by position lands at its index, and after it what is given by name. -/
theorem filter_landing (i : Nat) :
    (args.landing paramNames).filter (·.2 == i) =
      ((args.positional[i]?).toList ++ (args.named? paramNames i).toList).map fun v => (v, i) := by
  have hzip := filter_zipIdx args.positional 0 i
  rw [Nat.zero_add] at hzip
  rw [landing, List.filter_append, hzip, filter_namedArguments, List.map_append]

theorem named?_eq {i : Nat} {name : String} (h : paramNames[i]? = some name) :
    args.named? paramNames i = Entries.get? name args.keywords := by
  rw [named?, h]
  rfl

/-- Names that no parameter has are not looked up. -/
theorem namedArguments_congr {keywords : List (String × Value)}
    (h : ∀ name ∈ paramNames, Entries.get? name args.keywords = Entries.get? name keywords) :
    namedArguments args paramNames = namedArguments { args with keywords } paramNames := by
  refine List.filterMap_congr fun ⟨name, i⟩ hp => ?_
  exact congrArg (Option.map fun v => (v, i)) (h name (List.fst_mem_of_mem_zipIdx hp))

end Landing

/-! ## Passing by name -/

section Split

variable {paramNames : List String}

/-- Keywords that name all the values stand for the values. -/
theorem filterMap_zip (hn : paramNames.Nodup) {values : List Value}
    (hlength : values.length ≤ paramNames.length) (start : Nat) :
    ((paramNames.zipIdx start).filterMap fun p =>
      (Entries.get? p.1 (paramNames.zip values)).map fun v => (v, p.2)) = values.zipIdx start := by
  induction paramNames generalizing values start with
  | nil =>
    obtain rfl := List.eq_nil_of_length_eq_zero (Nat.le_zero.mp hlength)
    rfl
  | cons name rest ih =>
    cases values with
    | nil =>
      rw [List.zip_nil_right, List.zipIdx_nil, List.filterMap_eq_nil_iff]
      exact fun p _ => rfl
    | cons v values =>
      obtain ⟨hname, hrest⟩ := List.nodup_cons.mp hn
      -- the first name is none of the others, so these are looked up behind it
      have hothers : ∀ p ∈ rest.zipIdx (start + 1),
          ((Entries.get? p.1 ((name, v) :: rest.zip values)).map fun v => (v, p.2)) =
            (Entries.get? p.1 (rest.zip values)).map fun v => (v, p.2) := by
        intro p hp
        have hne : name ≠ p.1 := by
          rintro rfl
          exact hname (List.fst_mem_of_mem_zipIdx hp)
        rw [Entries.get?, Entries.find?, if_neg (by simpa using hne)]
        rfl
      have hfirst : Entries.get? name ((name, v) :: rest.zip values) = some v := by
        simp [Entries.get?, Entries.find?]
      rw [List.zip_cons_cons, List.zipIdx_cons, List.zipIdx_cons,
        List.filterMap_cons_some (by rw [hfirst]; rfl), List.filterMap_congr hothers,
        ih hrest (Nat.le_of_succ_le_succ hlength)]

/-- The names of the first parameters are none of the others, and keywords for these lack them. -/
theorem get?_zip_drop (hn : paramNames.Nodup) {k : Nat} {name : String}
    (h : name ∈ paramNames.take k) (values : List Value) :
    Entries.get? name ((paramNames.drop k).zip values) = none := by
  rw [← Option.not_isSome_iff_eq_none, Entries.get?, Entries.isSome_find?_iff, Entries.keys_zip]
  intro hmem
  rw [← List.take_append_drop k paramNames, List.nodup_append] at hn
  exact hn.2.2 name h name (List.mem_of_mem_take hmem) rfl

theorem zipIdx_take_drop {α : Type} {xs : List α} {k : Nat} (hk : k ≤ xs.length) :
    xs.zipIdx = (xs.take k).zipIdx ++ (xs.drop k).zipIdx k := by
  conv_lhs => rw [← List.take_append_drop k xs, List.zipIdx_append]
  rw [List.length_take, Nat.min_eq_left hk, Nat.zero_add]

/-- Keywords for the values from some index on stand for these values. -/
theorem namedArguments_split (hn : paramNames.Nodup) {values : List Value}
    (hlength : values.length ≤ paramNames.length) {k : Nat} (hk : k ≤ values.length)
    {args : Arguments} (hperm : args.keywords.Perm ((paramNames.zip values).drop k)) :
    namedArguments args paramNames = (values.drop k).zipIdx k := by
  have hlater : (paramNames.drop k).Nodup := hn.sublist (List.drop_sublist k paramNames)
  have hdrop : (paramNames.zip values).drop k = (paramNames.drop k).zip (values.drop k) :=
    List.drop_zipWith
  have hkeys : (Entries.keys ((paramNames.drop k).zip (values.drop k))).Nodup := by
    rw [Entries.keys_zip]
    exact hlater.sublist (List.take_sublist _ _)
  have hget : ∀ name, Entries.get? name args.keywords =
      Entries.get? name ((paramNames.drop k).zip (values.drop k)) := by
    intro name
    rw [hdrop] at hperm
    exact (Entries.find?_of_perm hperm.symm hkeys name).symm
  have hearlier : (paramNames.take k).zipIdx.filterMap (fun p =>
      (Entries.get? p.1 ((paramNames.drop k).zip (values.drop k))).map fun v => (v, p.2)) = [] := by
    refine List.filterMap_eq_nil_iff.mpr fun p hp => ?_
    rw [get?_zip_drop hn (List.fst_mem_of_mem_zipIdx hp)]
    rfl
  have hdropped : (values.drop k).length ≤ (paramNames.drop k).length := by
    simp only [List.length_drop]
    omega
  simp only [namedArguments, hget]
  rw [zipIdx_take_drop (Nat.le_trans hk hlength), List.filterMap_append, hearlier,
    filterMap_zip hlater hdropped, List.nil_append]

/-- Values land in the same order at the same indices, however many of them are passed by name. -/
theorem landing_split (hn : paramNames.Nodup) {values : List Value}
    (hlength : values.length ≤ paramNames.length) {k : Nat} (hk : k ≤ values.length)
    {keywords : List (String × Value)}
    (hperm : keywords.Perm ((paramNames.zip values).drop k)) :
    landing { positional := values.take k, keywords } paramNames = values.zipIdx := by
  rw [landing, namedArguments_split hn hlength hk hperm, zipIdx_take_drop hk]

end Split

/-! ## What is captured -/

/-- The arguments that a capture goes through, in its order. -/
def captured (answer : Answering) (maxDepth : Nat) (args : Arguments) (paramNames : List String)
    (w : World) : List CapturedArgument :=
  argumentsFrom answer maxDepth (args.landing paramNames) w

/-- Those that land at an index. -/
def capturedAt (answer : Answering) (maxDepth : Nat) (args : Arguments) (paramNames : List String)
    (w : World) (index : Nat) : List CapturedArgument :=
  (args.captured answer maxDepth paramNames w).filter (·.index == index)

section Captured

variable {answer : Answering} {maxDepth : Nat} {args : Arguments} {paramNames : List String}
  {w w' : World} {samples : List Sample}

theorem map_argumentsFrom (items : List (Value × Nat)) :
    (argumentsFrom answer maxDepth items w).map (fun a => (a.value, a.index)) = items := by
  induction items generalizing w with
  | nil => rfl
  | cons v rest ih => exact congrArg (v :: ·) ih

theorem values_capturedAt (i : Nat) :
    (capturedAt answer maxDepth args paramNames w i).map CapturedArgument.value =
      (args.positional[i]?).toList ++ (args.named? paramNames i).toList := by
  have hitems : (args.captured answer maxDepth paramNames w).map (fun a => (a.value, a.index)) =
    args.landing paramNames := map_argumentsFrom _
  have hat := congrArg (fun items => (items.filter (·.2 == i)).map Prod.fst) hitems
  simp only [List.filter_map, List.map_map, filter_landing] at hat
  simpa [capturedAt, Function.comp_def] using hat

/-- The first value that lands at the index of a parameter is the one that the function sees. -/
theorem head?_seen {i : Nat} {name : String} (h : paramNames[i]? = some name) :
    ((args.positional[i]?).toList ++ (args.named? paramNames i).toList).head? =
      args.get? i name := by
  rw [named?_eq h, get?]
  cases args.positional[i]? <;> cases Entries.get? name args.keywords <;> rfl

/-- What a complete capture leaves at each index, and what the function sees there. -/
structure CapturedAsSeen (answer : Answering) (maxDepth : Nat) (args : Arguments)
    (paramNames : List String) (w : World) (samples : List Sample) : Prop where
  /-- The samples of an index are the images of what the capture finds there. -/
  images : ∀ i, List.Forall₂ (CapturedArgument.Image maxDepth)
    (capturedAt answer maxDepth args paramNames w i) (Record.pushedTo i samples)
  /-- A parameter has a sample just where the function sees an argument. -/
  seen : ∀ (i : Nat) name, paramNames[i]? = some name →
    ((args.get? i name).isSome ↔ Record.pushedTo i samples ≠ [])
  /-- Its first sample is the image of that argument. -/
  first : ∀ (i : Nat) name v, paramNames[i]? = some name → args.get? i name = some v →
    ∃ a rest j more, capturedAt answer maxDepth args paramNames w i = a :: rest ∧ a.value = v ∧
      Record.pushedTo i samples = j :: more ∧ a.Image maxDepth j
  /-- It has another one just where the parameter is given by its name on top of its position. -/
  second : ∀ (i : Nat) name, paramNames[i]? = some name →
    (1 < (Record.pushedTo i samples).length ↔
      i < args.positional.length ∧ (Entries.get? name args.keywords).isSome)
  /-- There is no third one. -/
  atMostTwo : ∀ i, (Record.pushedTo i samples).length ≤ 2
  /-- Where there is no parameter, there is what is passed by position. -/
  surplus : ∀ i, paramNames.length ≤ i →
    (capturedAt answer maxDepth args paramNames w i).map CapturedArgument.value =
      (args.positional[i]?).toList

theorem capturedAsSeen
    (h : captureArguments answer maxDepth args paramNames w = (.ok samples, w')) :
    CapturedAsSeen answer maxDepth args paramNames w samples := by
  rw [captureArguments_eq] at h
  have himages : ∀ i, List.Forall₂ (CapturedArgument.Image maxDepth)
      (capturedAt answer maxDepth args paramNames w i) (Record.pushedTo i samples) :=
    fun i => images_pushedTo h i
  have hvalues : ∀ i, (capturedAt answer maxDepth args paramNames w i).map
      CapturedArgument.value = (args.positional[i]?).toList ++ (args.named? paramNames i).toList :=
    values_capturedAt
  have hlength : ∀ i, (Record.pushedTo i samples).length =
      (args.positional[i]?).toList.length + (args.named? paramNames i).toList.length := by
    intro i
    rw [← (himages i).length_eq, ← List.length_append, ← hvalues i, List.length_map]
  refine ⟨himages, fun i name hname => ?_, fun i name v hname hget => ?_, fun i name hname => ?_,
    fun i => ?_, fun i hi => ?_⟩
  · rw [← head?_seen hname, List.isSome_head?, ← List.length_pos_iff, ← List.length_pos_iff,
      hlength, List.length_append]
  · have hhead := hvalues i
    have himages := himages i
    rw [← head?_seen hname, ← hhead, List.head?_map] at hget
    cases hat : capturedAt answer maxDepth args paramNames w i with
    | nil =>
      rw [hat] at hget
      cases hget
    | cons a rest =>
      rw [hat] at himages hget
      obtain ⟨j, more, himage, -, hpushed⟩ := List.forall₂_cons_left_iff.mp himages
      exact ⟨a, rest, j, more, rfl, Option.some.inj hget, hpushed, himage⟩
  · have hgiven : i < args.positional.length ↔ (args.positional[i]?).isSome := by simp
    rw [hlength, named?_eq hname, hgiven]
    cases args.positional[i]? <;> cases Entries.get? name args.keywords <;> simp
  · rw [hlength]
    cases args.positional[i]? <;> cases args.named? paramNames i <;> simp
  · rw [hvalues, named?, List.getElem?_eq_none hi]
    exact List.append_nil _

/-- A capture completes if that of each of the arguments does. -/
theorem mapM_of_images {items : List (Value × Nat)}
    (h : ∀ a ∈ argumentsFrom answer maxDepth items w, ∃ j, a.Image maxDepth j) :
    ∃ samples w', items.mapM (captureSample answer maxDepth) w = (.ok samples, w') := by
  induction items generalizing w with
  | nil => exact ⟨[], w, rfl⟩
  | cons v rest ih =>
    rw [argumentsFrom] at h
    obtain ⟨⟨j, w₁, hj⟩, hrest⟩ := List.forall_mem_cons.mp h
    have hsample : captureSample answer maxDepth v w = (.ok (v.2, j), w₁) := by
      rw [captureSample, Run.bind_apply, hj]
      rfl
    rw [hsample] at hrest
    obtain ⟨more, w', hmore⟩ := ih hrest
    refine ⟨(v.2, j) :: more, w', ?_⟩
    simp only [List.mapM_cons, Run.bind_apply, hsample, hmore]
    rfl

end Captured

/-- Only what lands where decides what a capture does. -/
theorem captureArguments_of_landing {args args' : Arguments} {paramNames : List String}
    (h : args.landing paramNames = args'.landing paramNames) (answer : Answering) (maxDepth : Nat) :
    captureArguments answer maxDepth args paramNames =
      captureArguments answer maxDepth args' paramNames := by
  rw [captureArguments_eq, captureArguments_eq]
  exact congrArg (List.mapM _) h

/-- What is recorded of a call is what the function sees, whether it is passed by position or by
name. -/
theorem recorded_as_seen {paramNames : List String} (hn : paramNames.Nodup) (answer : Answering)
    (maxDepth : Nat) :
    (∀ args w, (∀ a ∈ args.captured answer maxDepth paramNames w, ∃ j, a.Image maxDepth j) →
      ∃ samples w', captureArguments answer maxDepth args paramNames w = (.ok samples, w')) ∧
    (∀ args w samples w', captureArguments answer maxDepth args paramNames w = (.ok samples, w') →
      CapturedAsSeen answer maxDepth args paramNames w samples) ∧
    (∀ args keywords,
      (∀ name ∈ paramNames, Entries.get? name args.keywords = Entries.get? name keywords) →
      captureArguments answer maxDepth args paramNames =
        captureArguments answer maxDepth { args with keywords } paramNames) ∧
    ∀ values keywords k, values.length ≤ paramNames.length → k ≤ values.length →
      keywords.Perm ((paramNames.zip values).drop k) →
      let split : Arguments := { positional := values.take k, keywords }
      let whole : Arguments := { positional := values, keywords := [] }
      captureArguments answer maxDepth split paramNames =
        captureArguments answer maxDepth whole paramNames ∧
      (∀ call label store, recordCall call label paramNames store maxDepth split =
        recordCall call label paramNames store maxDepth whole) ∧
      ∀ fuel store label, recordInto fuel store label split paramNames =
        recordInto fuel store label whole paramNames := by
  refine ⟨fun args w h => ?_, fun args w samples w' => capturedAsSeen, fun args keywords h => ?_,
    ?_⟩
  · rw [captureArguments_eq]
    exact mapM_of_images h
  · refine captureArguments_of_landing ?_ answer maxDepth
    rw [landing, namedArguments_congr h]
    rfl
  · intro values keywords k hlength hk hperm split whole
    have hwhole : whole.landing paramNames = values.zipIdx := by
      have hnone : namedArguments whole paramNames = [] :=
        List.filterMap_eq_nil_iff.mpr fun _ _ => rfl
      rw [landing, hnone, List.append_nil]
    have hsame : ∀ answer maxDepth, captureArguments answer maxDepth split paramNames =
        captureArguments answer maxDepth whole paramNames :=
      captureArguments_of_landing ((landing_split hn hlength hk hperm).trans hwhole.symm)
    refine ⟨hsame answer maxDepth, fun call label store => ?_, fun fuel store label => ?_⟩
    · unfold recordCall
      rw [hsame]
    · unfold recordInto
      simp only [hsame]

/-- The second parameter is given twice, and there are a surplus argument and a surplus name. -/
theorem recorded_as_seen_twice :
    let paramNames := ["left", "right"]
    let args : Arguments :=
      { positional := [.int 1, .bool true, .none]
        keywords := [("unit", .none), ("right", .str "x")] }
    paramNames.Nodup ∧
      captureArguments (answer 0) 10 args paramNames World.empty =
        (.ok [(0, .number (.integer 1)), (1, .bool true), (2, .null), (1, .string "x")],
          World.empty) ∧
      CapturedAsSeen (answer 0) 10 args paramNames World.empty
        [(0, .number (.integer 1)), (1, .bool true), (2, .null), (1, .string "x")] ∧
      recordInto 0 0 "calc.add"
          { positional := [], keywords := [("right", .int 3), ("left", .int 2)] } paramNames =
        recordInto 0 0 "calc.add" { positional := [.int 2, .int 3], keywords := [] }
          paramNames := by
  intro paramNames args
  have hn : paramNames.Nodup := by decide
  obtain ⟨-, hseen, -, hsplit⟩ := recorded_as_seen hn (answer 0) 10
  have hcapture : captureArguments (answer 0) 10 args paramNames World.empty =
      (.ok [(0, .number (.integer 1)), (1, .bool true), (2, .null), (1, .string "x")],
        World.empty) := rfl
  refine ⟨hn, hcapture, hseen _ _ _ _ hcapture, ?_⟩
  exact (hsplit [.int 2, .int 3] _ 0 (by decide) (by decide) (.swap _ _ _)).2.2 0 0 "calc.add"

end Arguments

end CallSampler
