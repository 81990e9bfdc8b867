import CallSampler.Config

/-!
# Eligibility

Whether a module may be instrumented is decided by the path of its file alone: it has to lie below
the workspace root, and no name on the way from the root to it may mark compiled artifacts, test
code or a third-party package. Names above the root never count.
-/

namespace CallSampler

inductive SkipReason where
  | noSourceFile
  | outsideWorkspace
  | compiledArtifact
  | testCode
  | thirdParty
deriving DecidableEq, Repr

def SkipReason.text : SkipReason → String
  | .noSourceFile => "no source file"
  | .outsideWorkspace => "outside workspace root"
  | .compiledArtifact => "compiled artifact cache"
  | .testCode => "test code"
  | .thirdParty => "third-party package"

/-- The rules by which paths are judged. -/
structure Eligibility where
  /-- The workspace root, absolute and without dots. -/
  root : Path
  artifactDirs : List String
  testPrefixes : List String
  thirdPartyMarkers : List String
deriving DecidableEq, Repr, Inhabited

namespace Eligibility

/-- The rules that settings ask for, read from a working directory. -/
def ofConfig (cwd : Path) (c : Config) : Eligibility where
  root := Path.normalize cwd c.workspaceRoot
  artifactDirs := c.artifactDirs
  testPrefixes := c.testPrefixes
  thirdPartyMarkers := c.thirdPartyMarkers

/-- The names that lead from a root to a place below it. -/
def below? : List (List Char) → List (List Char) → Option (List (List Char))
  | [], names => some names
  | r :: rs, n :: ns => if r = n then below? rs ns else none
  | _ :: _, [] => none

def occursIn (part : List Char) : List Char → Bool
  | [] => part.isEmpty
  | c :: rest => part.isPrefixOf (c :: rest) || occursIn part rest

/-- Whether a name is that of a directory of compiled artifacts. -/
def isArtifact (e : Eligibility) (name : List Char) : Bool :=
  e.artifactDirs.any fun d => d.toList == name

def isTest (e : Eligibility) (name : List Char) : Bool :=
  e.testPrefixes.any fun p => p.toList.isPrefixOf name

/-- Whether a name is that of a third-party package. -/
def isThirdParty (e : Eligibility) (name : List Char) : Bool :=
  e.thirdPartyMarkers.any fun m => occursIn m.toList name

/-- The reason to skip a file that the given names lead to from the root, if there is one: the first
that applies to any of them. -/
def judge (e : Eligibility) (names : List (List Char)) : Option SkipReason :=
  if names.any e.isArtifact then some .compiledArtifact
  else if names.any e.isTest then some .testCode
  else if names.any e.isThirdParty then some .thirdParty
  else none

/-- The reason to skip a module with the given file, read from a working directory, if there is
one. -/
def classify (e : Eligibility) (cwd : Path) (file? : Option Path) : Option SkipReason :=
  match file? with
  | none => some .noSourceFile
  | some file =>
    match below? e.root.names (Path.normalize cwd file).names with
    | none => some .outsideWorkspace
    | some names => e.judge names

end Eligibility

end CallSampler
