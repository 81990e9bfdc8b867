import CallSampler.CommandLine
import CallSampler.Proofs.Store.Loading
import CallSampler.Proofs.Summary.Functions
import CallSampler.Proofs.Text.ByteOrder
import Mathlib.Data.List.Forall2

/-!
# What a summary says, and in which order

Functions are inserted behind all those called at least as often, in ascending order of their names,
so each stands before the ones that have fewer calls, or as many and a later name
(`Summary.pairwise_before_ofRecords`). This order admits one arrangement only
(`Summary.eq_of_before`), so picking a function out of a summary and picking its record out of the
records come to the same (`Summary.only_ofRecords`). The kinds of a slot are gathered sample by
sample: those gathered so far are the kinds of the samples so far, by first appearance
(`AppearIn.gather`).
-/

namespace CallSampler

/-! ## First appearances -/

section FirstAppearances

variable {α : Type} [DecidableEq α] {items seen : List α} {x : α}

/-- The members of some items, each once, in the order of their first places. -/
structure AppearIn (items seen : List α) : Prop where
  mem_iff : ∀ y, y ∈ seen ↔ y ∈ items
  ordered : seen.Pairwise fun y z => items.idxOf y < items.idxOf z

namespace AppearIn

theorem nil : AppearIn ([] : List α) [] where
  mem_iff := fun _ => Iff.rfl
  ordered := .nil

theorem nodup (h : AppearIn items seen) : seen.Nodup :=
  h.ordered.imp fun hlt heq => absurd (heq ▸ hlt) (Nat.lt_irrefl _)

theorem again (h : AppearIn items seen) (hx : x ∈ seen) : AppearIn (items ++ [x]) seen where
  mem_iff := fun y => by
    rw [List.mem_append, List.mem_singleton, ← h.mem_iff]
    exact ⟨.inl, fun hy => hy.elim id fun heq => heq ▸ hx⟩
  ordered := h.ordered.imp_of_mem fun {y z} hy hz hlt => by
    rwa [List.idxOf_append_of_mem ((h.mem_iff y).mp hy),
      List.idxOf_append_of_mem ((h.mem_iff z).mp hz)]

theorem first (h : AppearIn items seen) (hx : x ∉ seen) :
    AppearIn (items ++ [x]) (seen ++ [x]) where
  mem_iff := fun y => by simp [h.mem_iff]
  ordered := by
    have hx' : x ∉ items := mt (h.mem_iff x).mpr hx
    have hplace : items.length ≤ (items ++ [x]).idxOf x := by
      rw [List.idxOf_append_of_notMem hx']
      exact Nat.le_add_right _ _
    refine List.pairwise_append.mpr ⟨?_, List.pairwise_singleton _ _, ?_⟩
    · refine h.ordered.imp_of_mem fun {y z} hy hz hlt => ?_
      rwa [List.idxOf_append_of_mem ((h.mem_iff y).mp hy),
        List.idxOf_append_of_mem ((h.mem_iff z).mp hz)]
    · intro y hy z hz
      obtain rfl := List.mem_singleton.mp hz
      have hy' := (h.mem_iff y).mp hy
      rw [List.idxOf_append_of_mem hy']
      exact Nat.lt_of_lt_of_le (List.idxOf_lt_length_of_mem hy') hplace

/-- The loop of `firstAppearances`, from the items before on. -/
theorem gather (h : AppearIn items seen) (more : List α) :
    AppearIn (items ++ more)
      (more.foldl (fun seen x => if x ∈ seen then seen else seen ++ [x]) seen) := by
  induction more generalizing items seen with
  | nil => rwa [List.append_nil]
  | cons x rest ih =>
    rw [List.foldl_cons, List.append_cons]
    split
    next hx => exact ih (h.again hx)
    next hx => exact ih (h.first hx)

end AppearIn

theorem appearIn_firstAppearances (items : List α) : AppearIn items (firstAppearances items) :=
  AppearIn.nil.gather items

end FirstAppearances

/-! ## Slots and functions -/

/-- A line of a summary tells a slot of a record: its index and the name that the recorded list has
there, if it reaches that far, how many samples the slot has, and which kinds these are of, each
once, in the order of the first samples of a kind. -/
structure SlotSummary.Tells (p : SlotSummary) (r : Record) (slot : Nat × List Json) : Prop where
  index : p.index = slot.1
  name : p.name = r.paramNames[slot.1]?
  samples : p.samples = slot.2.length
  once : p.kinds.Nodup
  mem_kinds : ∀ k, k ∈ p.kinds ↔ ∃ sample ∈ slot.2, sample.kind = k
  ordered : p.kinds.Pairwise fun k k' =>
    (slot.2.map Json.kind).idxOf k < (slot.2.map Json.kind).idxOf k'

theorem SlotSummary.tells_ofSlot (r : Record) (slot : Nat × List Json) :
    (ofSlot r slot).Tells r slot := by
  have hkinds := appearIn_firstAppearances (slot.2.map Json.kind)
  exact
    { index := rfl
      name := rfl
      samples := rfl
      once := hkinds.nodup
      mem_kinds := fun k => (hkinds.mem_iff k).trans List.mem_map
      ordered := hkinds.ordered }

namespace FunctionSummary

/-- The part of a summary about a function tells its record: the calls, and every slot in ascending
order of the indices. -/
structure Tells (f : FunctionSummary) (r : Record) : Prop where
  callCount : f.callCount = r.callCount.toNat
  ascending : (f.slots.map SlotSummary.index).Pairwise (· < ·)
  slots : List.Forall₂ (fun p slot => SlotSummary.Tells p r slot) f.slots r.slots

theorem tells_ofRecord (name : String) (r : Record) : (ofRecord name r).Tells r where
  callCount := rfl
  ascending := by
    rw [ofRecord, List.map_map]
    exact r.ascending
  slots := List.forall₂_map_left_iff.mpr
    (List.forall₂_same.mpr fun slot _ => SlotSummary.tells_ofSlot r slot)

/-- The order of a summary: more calls come first, and with as many the name that is less. -/
def Before (f g : FunctionSummary) : Prop :=
  g.callCount < f.callCount ∨ f.callCount = g.callCount ∧ f.name < g.name

theorem Before.asymm {f g : FunctionSummary} (h : f.Before g) : ¬g.Before f := by
  rintro (hless | ⟨hsame, hname⟩) <;> obtain hless' | ⟨hsame', hname'⟩ := h
  · omega
  · omega
  · omega
  · exact absurd hname' (String.lt_asymm hname)

theorem Before.trans {f g h : FunctionSummary} (hfg : f.Before g) (hgh : g.Before h) :
    f.Before h := by
  obtain hless | ⟨hsame, hname⟩ := hfg <;> obtain hless' | ⟨hsame', hname'⟩ := hgh
  · exact .inl (by omega)
  · exact .inl (by omega)
  · exact .inl (by omega)
  · exact .inr ⟨by omega, String.lt_trans hname hname'⟩

theorem mem_insert {f g : FunctionSummary} {fs : List FunctionSummary} :
    g ∈ f.insert fs ↔ g = f ∨ g ∈ fs := by
  rw [(f.perm_insert fs).mem_iff, List.mem_cons]

/-- A function whose name is greater than all before takes its place in the order. -/
theorem pairwise_before_insert {f : FunctionSummary} {fs : List FunctionSummary}
    (h : fs.Pairwise Before) (hnames : ∀ g ∈ fs, g.name < f.name) :
    (f.insert fs).Pairwise Before := by
  induction fs with
  | nil => exact List.pairwise_singleton _ _
  | cons g rest ih =>
    obtain ⟨hg, hrest⟩ := List.pairwise_cons.mp h
    obtain ⟨hname, hnames⟩ := List.forall_mem_cons.mp hnames
    unfold insert
    split
    next hless =>
      refine List.pairwise_cons.mpr ⟨fun g' hg' => ?_, h⟩
      obtain rfl | hg' := List.mem_cons.mp hg'
      · exact .inl hless
      · exact Before.trans (.inl hless) (hg g' hg')
    next hle =>
      refine List.pairwise_cons.mpr ⟨fun g' hg' => ?_, ih hrest hnames⟩
      obtain rfl | hg' := mem_insert.mp hg'
      · obtain heq | hlt := Nat.eq_or_lt_of_le (Nat.le_of_not_lt hle)
        · exact .inr ⟨heq.symm, hname⟩
        · exact .inl hlt
      · exact hg g' hg'

end FunctionSummary

/-! ## The ranking -/

namespace Summary

variable {entries : List (String × Record)} {name : String}

theorem pairwise_before_foldl_insert {fs done : List FunctionSummary}
    (hfs : (fs.map FunctionSummary.name).Pairwise (· < ·))
    (hdone : done.Pairwise FunctionSummary.Before)
    (hnames : ∀ g ∈ done, ∀ f ∈ fs, g.name < f.name) :
    (fs.foldl (fun fs f => f.insert fs) done).Pairwise FunctionSummary.Before := by
  induction fs generalizing done with
  | nil => exact hdone
  | cons f rest ih =>
    obtain ⟨hf, hrest⟩ := List.pairwise_cons.mp hfs
    rw [List.foldl_cons]
    refine ih hrest (FunctionSummary.pairwise_before_insert hdone
      fun g hg => hnames g hg f List.mem_cons_self) ?_
    intro g hg f' hf'
    obtain rfl | hg := FunctionSummary.mem_insert.mp hg
    · exact hf f'.name (List.mem_map_of_mem hf')
    · exact hnames g hg f' (List.mem_cons_of_mem _ hf')

theorem pairwise_before_ofRecords (entries : List (String × Record)) :
    (ofRecords entries).functions.Pairwise FunctionSummary.Before := by
  refine pairwise_before_foldl_insert ?_ .nil (by simp)
  rw [List.map_map]
  exact Entries.ascending_sorted entries

/-- The order arranges some functions in one way only. -/
theorem eq_of_before {fs gs : List FunctionSummary} (hperm : fs.Perm gs)
    (hfs : fs.Pairwise FunctionSummary.Before) (hgs : gs.Pairwise FunctionSummary.Before) :
    fs = gs :=
  hperm.eq_of_pairwise (fun _ _ _ _ h h' => absurd h' h.asymm) hfs hgs

theorem only_ofRecords (hn : (Entries.keys entries).Nodup) (name : String) :
    (ofRecords entries).only name = ofRecords (entries.filter (·.1 = name)) := by
  have hn' : (Entries.keys (entries.filter (·.1 = name))).Nodup :=
    hn.sublist (List.filter_sublist.map _)
  have hperm : ((ofRecords entries).only name).functions.Perm
      (ofRecords (entries.filter (·.1 = name))).functions := by
    refine ((perm_ofRecords hn).filter _).trans ?_
    rw [List.filter_map]
    exact (perm_ofRecords hn').symm
  have hsame := eq_of_before hperm ((pairwise_before_ofRecords entries).filter _)
    (pairwise_before_ofRecords _)
  exact congrArg Summary.mk hsame

theorem isEmpty_only_ofRecords (hn : (Entries.keys entries).Nodup) (name : String) :
    ((ofRecords entries).only name).isEmpty ↔ name ∉ Entries.keys entries := by
  rw [isEmpty, List.isEmpty_iff, only, List.filter_eq_nil_iff, ← (perm_names hn).mem_iff]
  simp

theorem totalCalls_ofRecords (hn : (Entries.keys entries).Nodup) :
    (ofRecords entries).totalCalls =
      (entries.map fun e => e.2.callCount.toNat).foldr (· + ·) 0 := by
  have hperm := (perm_ofRecords hn).map FunctionSummary.callCount
  rw [List.map_map] at hperm
  exact hperm.sum_nat

/-- What a summary says of records. -/
structure Views (entries : List (String × Record)) (s : Summary) : Prop where
  /-- Each function is listed once, -/
  once : (s.functions.map FunctionSummary.name).Perm (Entries.keys entries)
  /-- with what its record has, -/
  told : ∀ f ∈ s.functions, ∃ r, (f.name, r) ∈ entries ∧ f.Tells r
  /-- those with more calls first and those with as many by the bytes of their names. -/
  ranked : s.functions.Pairwise fun f g => g.callCount < f.callCount ∨
    f.callCount = g.callCount ∧ utf8 f.name < utf8 g.name
  /-- The total is that of all records, -/
  total : s.totalCalls = (entries.map fun e => e.2.callCount.toNat).foldr (· + ·) 0
  /-- and the part about a function is the summary of its record alone. -/
  part : ∀ name, s.only name = ofRecords (entries.filter (·.1 = name))

theorem views_ofRecords (hn : (Entries.keys entries).Nodup) :
    Views entries (ofRecords entries) where
  once := perm_names hn
  told := fun f hf => by
    obtain ⟨r, hr, heq⟩ := exists_of_mem hn hf
    refine ⟨r, Entries.mem_of_find? hr, ?_⟩
    rw [heq]
    exact FunctionSummary.tells_ofRecord _ r
  ranked := (pairwise_before_ofRecords entries).imp fun h =>
    h.imp_right fun ⟨hsame, hname⟩ => ⟨hsame, utf8_lt_utf8 hname⟩
  total := totalCalls_ofRecords hn
  part := only_ofRecords hn

end Summary

/-! ## The command -/

namespace CommandLine

/-- A command fails with a message: it prints nothing else. -/
def Output.FailsWith (output : Output) (message : String) : Prop :=
  output.exitCode = 1 ∧ output.stdout = "" ∧
    ∃ failure, output.failure = some failure ∧ failure.message = message

variable {d : Disk} {words : List String} {debug : Bool} {cache : Path} {format : OutputFormat}
  {name : String} {file : FileEntries}

theorem head?_append_ne {s : String} {c c' : Char} (hs : s.toList.head? = some c) (hne : c ≠ c')
    (rest : String) : (s ++ rest).toList.head? ≠ some c' := by
  rw [String.toList_append, List.head?_append, hs]
  exact fun heq => hne (Option.some.inj heq)

/-- No other failure reads like that of a function without samples. -/
theorem message_summary_ne (cause : SummaryError) (name : String) :
    (Failure.summary cause).message ≠ "No samples recorded for " ++ name := by
  have hfirst : ("No samples recorded for " ++ name).toList.head? = some 'N' := by
    rw [String.toList_append]
    rfl
  suffices hother : (Failure.summary cause).message.toList.head? ≠ some 'N' from
    fun h => hother (h ▸ hfirst)
  cases cause with
  | missing path => exact head?_append_ne (c := 'C') rfl (by decide) _
  | store cause =>
    cases cause with
    | unreadable path cause => exact head?_append_ne (c := 'F') rfl (by decide) _
    | malformed path => exact head?_append_ne (c := 'I') rfl (by decide) _
    | notAnObject path =>
      have hpath : ("Invalid cache JSON in " ++ path.text).toList.head? = some 'I' := by
        rw [String.toList_append]
        rfl
      exact head?_append_ne hpath (by decide) _
    | noDirectory directory cause => exact head?_append_ne (c := 'F') rfl (by decide) _
    | unwritable path cause => exact head?_append_ne (c := 'F') rfl (by decide) _

/-- What comes of the part of a file's summary about a function. -/
inductive Summarizes (d : Disk) (cache : Path) (name : String) : Except Failure String → Prop where
  | unreadable (e : StoreError) (h : FileEntries.read d cache = .error e) :
    Summarizes d cache name (.error (.summary (.store e)))
  | missing (h : FileEntries.read d cache = .ok none) :
    Summarizes d cache name (.error (.summary (.missing cache)))
  | absent (file : FileEntries) (h : FileEntries.read d cache = .ok (some file))
    (hname : name ∉ Entries.keys file.accepted) :
    Summarizes d cache name (.error (.noSamples name))
  | present (file : FileEntries) (h : FileEntries.read d cache = .ok (some file))
    (hname : name ∈ Entries.keys file.accepted) (text : String) :
    Summarizes d cache name (.ok text)

theorem summarizes_summarize (d : Disk) (cache : Path) (format : OutputFormat) (name : String) :
    Summarizes d cache name (summarize d cache format (some name)).result := by
  rw [summarize, Summary.ofFile]
  cases hread : FileEntries.read d cache with
  | error e => exact .unreadable e hread
  | ok file? =>
  cases file? with
  | none => exact .missing hread
  | some file =>
    have hempty := Summary.isEmpty_only_ofRecords (FileEntries.nodup_of_read hread) name
    dsimp only
    split
    next h => exact .absent file hread (hempty.mp h)
    next h => exact .present file hread (not_not.mp (mt hempty.mpr h)) _

theorem failsWith_noSamples_iff
    (hwords : parse words = .ok { debug, command := .summary cache format (some name) }) :
    (run d words).FailsWith ("No samples recorded for " ++ name) ↔
      ∃ file, FileEntries.read d cache = .ok (some file) ∧ name ∉ Entries.keys file.accepted := by
  rw [run, hwords]
  dsimp only [runCommand]
  have hresult := summarizes_summarize d cache format name
  generalize summarize d cache format (some name) = report at hresult ⊢
  obtain ⟨notices, result⟩ := report
  constructor
  · rintro ⟨-, -, failure, hfailure, hmessage⟩
    cases hresult with
    | unreadable e h =>
      cases hfailure
      exact absurd hmessage (message_summary_ne _ _)
    | missing h =>
      cases hfailure
      exact absurd hmessage (message_summary_ne _ _)
    | absent file h hname => exact ⟨file, h, hname⟩
    | present file h hname text => cases hfailure
  · rintro ⟨file, hfile, hname⟩
    cases hresult with
    | unreadable e h => rw [hfile] at h; cases h
    | missing h => rw [hfile] at h; cases h
    | absent file h hname => exact ⟨rfl, rfl, _, rfl, rfl⟩
    | present file' h hname' text =>
      rw [hfile] at h
      cases h
      exact absurd hname' hname

end CommandLine

/-- A summary is a faithful view of records: whatever they are, each function is listed once, with
its calls, its slots and the names and kinds there, in an order that leaves nothing open, and a
part of it is the summary of a part. The command that shows one function fails for want of samples
exactly if the file reads as one of records and none of those that it accepts has that name. -/
theorem summary_views_records :
    (∀ entries : List (String × Record), (Entries.keys entries).Nodup →
      Summary.Views entries (.ofRecords entries)) ∧
    ∀ (d : Disk) (words : List String) (debug : Bool) (cache : Path) (format : OutputFormat)
      (name : String),
      CommandLine.parse words = .ok { debug, command := .summary cache format (some name) } →
      ((CommandLine.run d words).FailsWith ("No samples recorded for " ++ name) ↔
        ∃ file, FileEntries.read d cache = .ok (some file) ∧
          name ∉ Entries.keys file.accepted) :=
  ⟨fun _ => Summary.views_ofRecords, fun _ _ _ _ _ _ => CommandLine.failsWith_noSamples_iff⟩

/-- Records of equally many calls, one with a gap between its slots and a slot that no name is
for. -/
def Record.tied : List (String × Record) :=
  [("m.g", { Record.fresh ["x"] with
      callCount := 2, slots := [(0, [.ofNat 1, .null, .ofNat 2]), (3, [.bool true])]
      ascending := by simp [Entries.Ascending] }),
   ("m.f", { Record.fresh ["y"] with callCount := 2 })]

/-- A disk with a file of records of one function. -/
def Disk.withRecords : Disk :=
  (Disk.empty ["w".toList]).plant { text := "/c.json" } (.text "\x7b\"m.f\": [1]\x7d")

theorem summary_views_records_tied :
    (Summary.ofRecords Record.tied).functions.map FunctionSummary.name = ["m.f", "m.g"] ∧
    Summary.Views Record.tied (.ofRecords Record.tied) ∧
    (CommandLine.run .withRecords ["summary", "/c.json", "--function", "m.g"]).FailsWith
      "No samples recorded for m.g" := by
  have hkeys : (Entries.keys Record.tied).Nodup := by decide
  have hread : (FileEntries.read .withRecords { text := "/c.json" }).toOption.map
      (·.map fun file => Entries.keys file.accepted) = some (some ["m.f"]) := by decide +kernel
  have hwords : (CommandLine.parse ["summary", "/c.json", "--function", "m.g"]).toOption =
      some (.mk false (.summary { text := "/c.json" } .text (some "m.g"))) := by decide +kernel
  refine ⟨by decide +kernel, summary_views_records.1 _ hkeys, ?_⟩
  cases hparsed : CommandLine.parse ["summary", "/c.json", "--function", "m.g"] with
  | error e => rw [hparsed] at hwords; cases hwords
  | ok invocation =>
    rw [hparsed] at hwords
    cases hwords
    refine (summary_views_records.2 _ _ _ _ _ _ hparsed).mpr ?_
    cases hfile : FileEntries.read .withRecords { text := "/c.json" } with
    | error e => rw [hfile] at hread; cases hread
    | ok file? =>
    rw [hfile] at hread
    cases file? with
    | none => cases hread
    | some file =>
      have haccepted : Entries.keys file.accepted = ["m.f"] :=
        Option.some.inj (Option.some.inj hread)
      refine ⟨file, rfl, ?_⟩
      rw [haccepted]
      decide

end CallSampler
