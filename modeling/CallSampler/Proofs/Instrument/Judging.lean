import CallSampler.CommandLine
import CallSampler.Proofs.Instrument.Wrapping
import CallSampler.Proofs.Path.Resolution

/-!
# How files are judged

A file is judged by the names that lead to it from the workspace root: where the root is in front
of it, they are what is left of the file's names (`below?_eq_some_iff`), and the first kind of mark
that any of them has is the reason to skip it (`verdict_judge`). So neither the spelling of the two
paths nor what stands above the root counts, and nothing below a skipped file is let through
(`ByComponents`). A check on the command line judges by the same rules as a context that goes by the
same settings (`judged_by_components`).
-/

namespace CallSampler

namespace Eligibility

variable {e : Eligibility} {names rest more : List (List Char)}

/-! ## The names below the root -/

theorem below?_eq_some_iff {root : List (List Char)} :
    below? root names = some rest ↔ names = root ++ rest := by
  induction root generalizing names with
  | nil => simp [below?]
  | cons r rs ih =>
    cases names with
    | nil => simp [below?]
    | cons n ns =>
      unfold below?
      split
      next heq => simp [heq, ih]
      next hne => simp [Ne.symm hne]

theorem below?_eq_none_iff {root : List (List Char)} :
    below? root names = none ↔ ¬root <+: names := by
  rw [Option.eq_none_iff_forall_ne_some]
  constructor
  · rintro hnone ⟨rest, hrest⟩
    exact hnone rest (below?_eq_some_iff.mpr hrest.symm)
  · intro hnot rest hrest
    exact hnot ⟨rest, (below?_eq_some_iff.mp hrest).symm⟩

/-- What two lists of names begin with in common does not count. -/
theorem below?_append (front root names : List (List Char)) :
    below? (front ++ root) (front ++ names) = below? root names := by
  induction front with
  | nil => rfl
  | cons s rest ih => rw [List.cons_append, List.cons_append, below?, if_pos rfl, ih]

/-! ## Marks -/

/-- Some name is that of a directory of compiled artifacts. -/
def HasArtifact (e : Eligibility) (names : List (List Char)) : Prop :=
  ∃ name ∈ names, ∃ d ∈ e.artifactDirs, name = d.toList

/-- Some name starts as that of test code does. -/
def HasTest (e : Eligibility) (names : List (List Char)) : Prop :=
  ∃ name ∈ names, ∃ p ∈ e.testPrefixes, p.toList <+: name

/-- Some name contains the mark of a third-party package. -/
def HasThirdParty (e : Eligibility) (names : List (List Char)) : Prop :=
  ∃ name ∈ names, ∃ m ∈ e.thirdPartyMarkers, m.toList <:+: name

/-- The reason to skip a file that some names lead to, by the first kind of mark that they have. -/
inductive Verdict (e : Eligibility) (names : List (List Char)) : Option SkipReason → Prop where
  | compiledArtifact (marked : e.HasArtifact names) : Verdict e names (some .compiledArtifact)
  | testCode (noArtifact : ¬e.HasArtifact names) (marked : e.HasTest names) :
    Verdict e names (some .testCode)
  | thirdParty (noArtifact : ¬e.HasArtifact names) (noTest : ¬e.HasTest names)
    (marked : e.HasThirdParty names) : Verdict e names (some .thirdParty)
  | eligible (noArtifact : ¬e.HasArtifact names) (noTest : ¬e.HasTest names)
    (noThirdParty : ¬e.HasThirdParty names) : Verdict e names none

theorem occursIn_iff {part name : List Char} : occursIn part name ↔ part <:+: name := by
  induction name with
  | nil => simp [occursIn]
  | cons c cs ih => simp [occursIn, List.infix_cons_iff, ih]

theorem any_isArtifact : names.any e.isArtifact ↔ e.HasArtifact names := by
  simp only [List.any_eq_true, isArtifact, beq_iff_eq, HasArtifact]
  simp only [eq_comm]

theorem any_isTest : names.any e.isTest ↔ e.HasTest names := by
  simp only [List.any_eq_true, isTest, List.isPrefixOf_iff_prefix, HasTest]

theorem any_isThirdParty : names.any e.isThirdParty ↔ e.HasThirdParty names := by
  simp only [List.any_eq_true, isThirdParty, occursIn_iff, HasThirdParty]

/-- Marks are looked for in a fixed order, each among all names. -/
theorem verdict_judge (e : Eligibility) (names : List (List Char)) :
    Verdict e names (e.judge names) := by
  rw [judge]
  by_cases hartifact : e.HasArtifact names
  · rw [if_pos (any_isArtifact.mpr hartifact)]
    exact .compiledArtifact hartifact
  · rw [if_neg (mt any_isArtifact.mp hartifact)]
    by_cases htest : e.HasTest names
    · rw [if_pos (any_isTest.mpr htest)]
      exact .testCode hartifact htest
    · rw [if_neg (mt any_isTest.mp htest)]
      by_cases hthirdParty : e.HasThirdParty names
      · rw [if_pos (any_isThirdParty.mpr hthirdParty)]
        exact .thirdParty hartifact htest hthirdParty
      · rw [if_neg (mt any_isThirdParty.mp hthirdParty)]
        exact .eligible hartifact htest hthirdParty

theorem judge_eq_none_iff :
    e.judge names = none ↔ ¬e.HasArtifact names ∧ ¬e.HasTest names ∧ ¬e.HasThirdParty names := by
  have hverdict := verdict_judge e names
  generalize e.judge names = reason? at hverdict ⊢
  cases hverdict <;> simp_all

theorem judge_ne_outsideWorkspace : e.judge names ≠ some .outsideWorkspace := by
  have hverdict := verdict_judge e names
  intro hjudge
  rw [hjudge] at hverdict
  cases hverdict

/-- Names that follow take no mark away. -/
theorem judge_append (h : e.judge names ≠ none) : e.judge (names ++ more) ≠ none := by
  rw [ne_eq, judge_eq_none_iff] at h ⊢
  refine fun hmore => h ⟨?_, ?_, ?_⟩
  · exact fun ⟨name, hname, hmarked⟩ => hmore.1 ⟨name, List.mem_append_left _ hname, hmarked⟩
  · exact fun ⟨name, hname, hmarked⟩ => hmore.2.1 ⟨name, List.mem_append_left _ hname, hmarked⟩
  · exact fun ⟨name, hname, hmarked⟩ => hmore.2.2 ⟨name, List.mem_append_left _ hname, hmarked⟩

/-! ## Files -/

variable {cwd : Path} {c : Config} {file : Path}

@[simp] theorem root_ofConfig : (ofConfig cwd c).root = Path.normalize cwd c.workspaceRoot := rfl

/-- The root does not matter once it is known what stands below it. -/
theorem judge_congr {e' : Eligibility} (hartifact : e.artifactDirs = e'.artifactDirs)
    (htest : e.testPrefixes = e'.testPrefixes)
    (hthirdParty : e.thirdPartyMarkers = e'.thirdPartyMarkers) (names : List (List Char)) :
    e.judge names = e'.judge names := by
  obtain ⟨root, artifactDirs, testPrefixes, thirdPartyMarkers⟩ := e
  obtain ⟨root', artifactDirs', testPrefixes', thirdPartyMarkers'⟩ := e'
  cases hartifact
  cases htest
  cases hthirdParty
  rfl

theorem judge_ofConfig (cwd cwd' root : Path) (c : Config) (names : List (List Char)) :
    (ofConfig cwd' { c with workspaceRoot := root }).judge names = (ofConfig cwd c).judge names :=
  judge_congr rfl rfl rfl names

/-- The rules of some settings judge a file by what stands between the two normalized paths. -/
theorem classify_ofConfig (cwd : Path) (c : Config) (file : Path) :
    (ofConfig cwd c).classify cwd (some file) =
      match below? (Path.normalize cwd c.workspaceRoot).names (Path.normalize cwd file).names with
      | none => some .outsideWorkspace
      | some names => (ofConfig cwd c).judge names := by
  unfold classify
  cases hbelow : below? (Path.normalize cwd c.workspaceRoot).names
      (Path.normalize cwd file).names with
  | none => simp only [root_ofConfig, hbelow]
  | some names => simp only [root_ofConfig, hbelow]

theorem classify_eq_outsideWorkspace_iff :
    (ofConfig cwd c).classify cwd (some file) = some .outsideWorkspace ↔
      ¬(Path.normalize cwd c.workspaceRoot).names <+: (Path.normalize cwd file).names := by
  rw [classify_ofConfig, ← below?_eq_none_iff]
  cases below? (Path.normalize cwd c.workspaceRoot).names (Path.normalize cwd file).names with
  | none => simp
  | some names => simp [judge_ne_outsideWorkspace]

theorem classify_of_below
    (h : (Path.normalize cwd file).names = (Path.normalize cwd c.workspaceRoot).names ++ rest) :
    (ofConfig cwd c).classify cwd (some file) = (ofConfig cwd c).judge rest := by
  rw [classify_ofConfig, below?_eq_some_iff.mpr h]

/-- What a file is judged by, read from a working directory by the rules of some settings. -/
structure ByComponents (cwd : Path) (c : Config) (file : Path) : Prop where
  /-- A file is outside of the workspace exactly if the root is not in front of it, name by
  name. -/
  outside : (ofConfig cwd c).classify cwd (some file) = some .outsideWorkspace ↔
    ¬(Path.normalize cwd c.workspaceRoot).names <+: (Path.normalize cwd file).names
  /-- Any other file is judged by the names below the root. -/
  inside : ∀ rest,
    (Path.normalize cwd file).names = (Path.normalize cwd c.workspaceRoot).names ++ rest →
      Verdict (ofConfig cwd c) rest ((ofConfig cwd c).classify cwd (some file))
  /-- How root and file are spelt does not count, nor from where they are read. -/
  spelling : ∀ cwd' root' file',
    Path.normalize cwd' root' = Path.normalize cwd c.workspaceRoot →
    Path.normalize cwd' file' = Path.normalize cwd file →
      (ofConfig cwd' { c with workspaceRoot := root' }).classify cwd' (some file') =
        (ofConfig cwd c).classify cwd (some file)
  /-- Nor does what root and file begin with in common, so both may move elsewhere together. -/
  moving : ∀ root' file' front front' root names,
    (Path.normalize cwd c.workspaceRoot).names = front ++ root →
    (Path.normalize cwd file).names = front ++ names →
    (Path.normalize cwd root').names = front' ++ root →
    (Path.normalize cwd file').names = front' ++ names →
      (ofConfig cwd { c with workspaceRoot := root' }).classify cwd (some file') =
        (ofConfig cwd c).classify cwd (some file)
  /-- Below a file of the workspace that is skipped, every file is. -/
  below : ∀ file' more, (Path.normalize cwd file').names = (Path.normalize cwd file).names ++ more →
    (Path.normalize cwd c.workspaceRoot).names <+: (Path.normalize cwd file).names →
    (ofConfig cwd c).classify cwd (some file) ≠ none →
      ∃ reason, (ofConfig cwd c).classify cwd (some file') = some reason ∧
        reason ≠ .outsideWorkspace

theorem byComponents (cwd : Path) (c : Config) (file : Path) : ByComponents cwd c file where
  outside := classify_eq_outsideWorkspace_iff
  inside := fun rest hrest => by
    rw [classify_of_below hrest]
    exact verdict_judge _ _
  spelling := fun cwd' root' file' hroot hfile => by
    simp only [classify_ofConfig, hroot, hfile, judge_ofConfig cwd cwd' root' c]
  moving := fun root' file' front front' root names hroot hnames hroot' hnames' => by
    simp only [classify_ofConfig, hroot, hnames, hroot', hnames', below?_append,
      judge_ofConfig cwd cwd root' c]
  below := fun file' more hmore hinside hskipped => by
    obtain ⟨rest, hrest⟩ := hinside
    rw [classify_of_below hrest.symm] at hskipped
    rw [← hrest, List.append_assoc] at hmore
    rw [classify_of_below hmore]
    have hmarked : (ofConfig cwd c).judge (rest ++ more) ≠ none := judge_append hskipped
    obtain ⟨reason, hreason⟩ := Option.ne_none_iff_exists'.mp hmarked
    exact ⟨reason, hreason, fun heq => judge_ne_outsideWorkspace (heq ▸ hreason)⟩

end Eligibility

/-! ## Contexts and checks -/

/-- A module is skipped if there is a reason to, and its functions are wrapped if there is none. -/
inductive ModuleState.DueTo : ModuleState → Option SkipReason → Prop where
  | skip (reason : SkipReason) : DueTo (.skipped reason) (some reason)
  | wrap (wrapped failed : List String) : DueTo (.instrumented wrapped failed) none

namespace Session

variable {s : Session} {k m : Nat} {inst : Instrumentor} {rules : Eligibility} {md : Module}

/-- A context goes by some rules, which its instrumentor has. -/
def GoesBy (k : Nat) (rules : Eligibility) (inst : Instrumentor) (s : Session) : Prop :=
  ∃ ctx, s.contexts[k]? = some ctx ∧ s.instrumentors[ctx.instrumentor]? = some inst ∧
    inst.rules = rules

/-- A new context goes by the rules of its settings, and has seen nothing. -/
theorem goesBy_addContext (config : Config) (s : Session) :
    ∃ inst, GoesBy (s.addContext config).1 (.ofConfig s.disk.cwd config) inst
        (s.addContext config).2 ∧
      inst.processed = [] :=
  ⟨_, ⟨_, Array.getElem?_push_size, Array.getElem?_push_size, rfl⟩, rfl⟩

/-- What a context decides about a module that it has not seen is due to its rules. -/
theorem GoesBy.offer (h : s.GoesBy k rules inst) (hmd : s.modules[m]? = some md)
    (hnew : inst.state? md.name = none) :
    ∃ state, (s.offer k m).1 = .evaluated state ∧
      state.DueTo (rules.classify s.disk.cwd md.file) := by
  obtain ⟨ctx, hctx, hinst, rfl⟩ := h
  rw [Session.offer, hctx]
  dsimp only
  rw [evaluate_of_new hinst hmd hnew]
  cases inst.rules.classify s.disk.cwd md.file with
  | some reason => exact ⟨_, rfl, .skip reason⟩
  | none => exact ⟨_, rfl, .wrap _ _⟩

end Session

namespace CommandLine

variable {d : Disk} {words : List String} {debug : Bool} {path configFile : Path}
  {root? : Option Path} {c : Config}

/-- A check prints of a file what was decided about a module. -/
inductive Tells (path : Path) : String → ModuleState → Prop where
  | instrument (wrapped failed : List String) :
    Tells path ("instrument: " ++ path.text ++ "\n") (.instrumented wrapped failed)
  | skip (reason : SkipReason) :
    Tells path ("skip: " ++ path.text ++ " (" ++ reason.text ++ ")\n") (.skipped reason)

/-- What a check prints of a file that there is a reason to skip, or none. -/
def verdictLine (path : Path) : Option SkipReason → String
  | none => "instrument: " ++ path.text ++ "\n"
  | some reason => "skip: " ++ path.text ++ " (" ++ reason.text ++ ")\n"

theorem tells_of_dueTo {state : ModuleState} {reason? : Option SkipReason}
    (h : state.DueTo reason?) : Tells path (verdictLine path reason?) state := by
  cases h with
  | skip reason => exact .skip reason
  | wrap wrapped failed => exact .instrument wrapped failed

theorem run_check (hconfig : Config.ofFile d configFile = .ok c)
    (hwords : parse words = .ok { debug, command := .check path root? (some configFile) }) :
    run d words =
      { exitCode := 0
        stdout := verdictLine path ((Eligibility.ofConfig d.cwd
          { c with workspaceRoot := root?.getD c.workspaceRoot }).classify d.cwd (some path))
        notices := []
        failure := none } := by
  rw [run, hwords]
  simp only [runCommand, check, checkConfig, hconfig, Except.map]
  generalize Eligibility.classify _ _ _ = reason?
  cases reason? <;> rfl

end CommandLine

/-- Files are judged by the names below the root and in a fixed order of precedence: whatever the
rules and the paths are, a file is outside of the workspace exactly if the root is not in front of
it, and otherwise the first kind of mark that its names below the root have is the reason to skip
it; neither spelling nor what stands above the root counts, and nothing below a skipped file is let
through. A check on the command line, with the settings of a file and maybe another root, prints
what every context that goes by these settings decides about a module with that file that it has
not seen. A context that was just made of the settings goes by them and has seen no module. -/
theorem judged_by_components :
    (∀ cwd c file, Eligibility.ByComponents cwd c file) ∧
    ∀ (d : Disk) (words : List String) (debug : Bool) (path configFile : Path)
      (root? : Option Path) (c : Config), Config.ofFile d configFile = .ok c →
      CommandLine.parse words = .ok { debug, command := .check path root? (some configFile) } →
      let settings := { c with workspaceRoot := root?.getD c.workspaceRoot }
      let output := CommandLine.run d words
      output.exitCode = 0 ∧ output.failure = none ∧ output.notices = [] ∧
      (∀ s : Session, ∃ inst, (s.addContext settings).2.GoesBy (s.addContext settings).1
        (.ofConfig s.disk.cwd settings) inst ∧ inst.processed = []) ∧
      ∀ (s : Session) (k m : Nat) (inst : Instrumentor) (md : Module), s.disk.cwd = d.cwd →
        s.GoesBy k (.ofConfig d.cwd settings) inst → s.modules[m]? = some md →
        md.file = some path → inst.state? md.name = none →
          ∃ state, (s.offer k m).1 = .evaluated state ∧
            CommandLine.Tells path output.stdout state := by
  refine ⟨Eligibility.byComponents, ?_⟩
  intro d words debug path configFile root? c hconfig hwords settings output
  have houtput := CommandLine.run_check hconfig hwords
  refine ⟨congrArg _ houtput, congrArg _ houtput, congrArg _ houtput,
    Session.goesBy_addContext settings, ?_⟩
  intro s k m inst md hcwd hgoes hmd hfile hnew
  obtain ⟨state, heval, hdue⟩ := hgoes.offer hmd hnew
  rw [hfile, hcwd] at hdue
  refine ⟨state, heval, ?_⟩
  simp only [output, houtput]
  exact CommandLine.tells_of_dueTo hdue

/-- A disk with a file of settings for another workspace. -/
def Disk.withSettings : Disk :=
  (Disk.empty ["w".toList]).plant { text := "/c.toml" }
    (.text "cache_file = \"c\"\nworkspace_root = \"/v\"\ntest_prefixes = [\"spec\"]")

/-- A session in the same directory with a module of a file below it. -/
def Session.withSpecimen : Session :=
  { Session.empty Disk.withSettings with
    modules := #[.blank "m" (some { text := "src//../lib/spec_m.py" })] }

theorem judged_by_components_spelt :
    let words := ["check", "src//../lib/spec_m.py", "--config", "/c.toml", "--workspace-root", "."]
    let settings : Config :=
      { Config.ofPaths { text := "c" } { text := "." } with testPrefixes := ["spec"] }
    let built := Session.withSpecimen.addContext settings
    Eligibility.Verdict (.ofConfig { text := "/w" } settings) ["lib".toList, "spec_m.py".toList]
      (some .testCode) ∧
    (CommandLine.run .withSettings words).stdout = "skip: src//../lib/spec_m.py (test code)\n" ∧
    ∃ state, (built.2.offer built.1 0).1 = .evaluated state ∧
      CommandLine.Tells { text := "src//../lib/spec_m.py" }
        (CommandLine.run .withSettings words).stdout state := by
  intro words settings built
  have hfiles := judged_by_components.1 { text := "/w" } settings
    { text := "src//../lib/spec_m.py" }
  have hverdict := hfiles.inside ["lib".toList, "spec_m.py".toList] (by decide +kernel)
  have hreason : (Eligibility.ofConfig { text := "/w" } settings).classify { text := "/w" }
      (some { text := "src//../lib/spec_m.py" }) = some .testCode := by decide +kernel
  rw [hreason] at hverdict
  have hconfig : (Config.ofFile .withSettings { text := "/c.toml" }).toOption =
      some { settings with workspaceRoot := { text := "/v" } } := by decide +kernel
  have hwords : (CommandLine.parse words).toOption =
      some (.mk false (.check { text := "src//../lib/spec_m.py" } (some { text := "." })
        (some { text := "/c.toml" }))) := by decide +kernel
  have hstdout : (CommandLine.run .withSettings words).stdout =
      "skip: src//../lib/spec_m.py (test code)\n" := by decide +kernel
  refine ⟨hverdict, hstdout, ?_⟩
  cases hread : Config.ofFile .withSettings { text := "/c.toml" } with
  | error e => rw [hread] at hconfig; cases hconfig
  | ok c =>
  cases hparsed : CommandLine.parse words with
  | error e => rw [hparsed] at hwords; cases hwords
  | ok invocation =>
    rw [hread] at hconfig
    rw [hparsed] at hwords
    cases hconfig
    cases hwords
    obtain ⟨-, -, -, hcontexts, hoffers⟩ := judged_by_components.2 _ _ _ _ _ _ _ hread hparsed
    obtain ⟨inst, hgoes, hnew⟩ := hcontexts Session.withSpecimen
    have hstate : inst.state? "m" = none := by rw [Instrumentor.state?, hnew]; rfl
    exact hoffers built.2 built.1 0 inst _ rfl hgoes rfl rfl hstate

end CallSampler
