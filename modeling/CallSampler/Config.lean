import CallSampler.Capture

/-!
# Settings

What an instrumented run is told: where its samples go, which modules it may touch, and how much it
keeps. All but the two paths have defaults.
-/

namespace CallSampler

/-- The settings of an instrumented run. -/
structure Config where
  /-- Where samples are kept between runs. -/
  cacheFile : Path
  /-- Only modules below this directory are instrumented. -/
  workspaceRoot : Path
  /-- How many samples of each parameter are kept. -/
  maxSamples : Nat
  /-- How deep arguments are captured. -/
  maxDepth : Nat
  /-- The names of directories of compiled artifacts. -/
  artifactDirs : List String
  /-- What the names of test code start with. -/
  testPrefixes : List String
  /-- What the names of third-party directories contain. -/
  thirdPartyMarkers : List String
deriving DecidableEq, Repr, Inhabited

inductive ConfigError where
  | unreadable (path : Path) (cause : DiskError)
  | malformed
  | noSamples
  | noWorkspaceRoot
  | noCacheFile
deriving DecidableEq, Repr

def ConfigError.message : ConfigError → String
  | .unreadable path _ => "Failed to read " ++ path.text
  | .malformed => "Failed to parse TOML"
  | .noSamples => "Invalid max_samples_per_param: 0 (must be >= 1)"
  | .noWorkspaceRoot => "Invalid configuration: missing workspace_root"
  | .noCacheFile => "Invalid configuration: missing cache_file"

/-- The cause of a refusal, where there is one to tell. -/
def ConfigError.cause? : ConfigError → Option String
  | .unreadable _ cause => some cause.message
  | .malformed => some "not a TOML document of settings"
  | _ => none

namespace Config

/-- The number of samples kept of each parameter where none is chosen. -/
def defaultMaxSamples : Nat := 50

def ofPaths (cacheFile workspaceRoot : Path) : Config where
  cacheFile := cacheFile
  workspaceRoot := workspaceRoot
  maxSamples := defaultMaxSamples
  maxDepth := defaultMaxDepth
  artifactDirs := ["__pycache__"]
  testPrefixes := ["test"]
  thirdPartyMarkers := ["site-packages"]

/-- Refuse settings that would keep no samples or lead nowhere. -/
def validate (c : Config) : Except ConfigError Unit :=
  if c.maxSamples = 0 then .error .noSamples
  else if c.workspaceRoot.isEmpty then .error .noWorkspaceRoot
  else if c.cacheFile.isEmpty then .error .noCacheFile
  else .ok ()

/-- The store of a run, not yet loaded. -/
def store (c : Config) : Store := Store.fresh c.cacheFile c.maxSamples c.maxDepth

end Config

end CallSampler
