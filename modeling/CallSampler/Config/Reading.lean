import CallSampler.Config
import CallSampler.Toml.Reader

/-!
# Reading settings

Settings are kept in a TOML file. The two paths have to be there, every other setting may be left
out, and settings of other names are ignored.
-/

namespace CallSampler.Config

def path? : Toml → Option Path
  | .string s => some { text := s }
  | _ => none

def count? : Toml → Option Nat
  | .integer n => if 0 ≤ n then some n.toNat else none
  | _ => none

def texts? : Toml → Option (List String)
  | .array items => items.mapM fun item =>
      match item with
      | .string s => some s
      | _ => none
  | _ => none

def optional {α : Type} (fallback : α) (read : Toml → Option α) : Option Toml → Option α
  | none => some fallback
  | some v => read v

def ofToml? (t : Toml) : Option Config := do
  let cacheFile ← path? (← t.field? "cache_file")
  let workspaceRoot ← path? (← t.field? "workspace_root")
  let base := ofPaths cacheFile workspaceRoot
  let maxSamples ← optional base.maxSamples count? (t.field? "max_samples_per_param")
  let maxDepth ← optional base.maxDepth count? (t.field? "max_depth")
  let artifactDirs ← optional base.artifactDirs texts? (t.field? "artifact_dirs")
  let testPrefixes ← optional base.testPrefixes texts? (t.field? "test_prefixes")
  let thirdPartyMarkers ← optional base.thirdPartyMarkers texts? (t.field? "third_party_markers")
  some
    { cacheFile, workspaceRoot, maxSamples, maxDepth, artifactDirs, testPrefixes
      thirdPartyMarkers }

/-- The settings that a text spells, if they are valid. -/
def ofText (text : String) : Except ConfigError Config :=
  match (Toml.ofText? text).bind ofToml? with
  | none => .error .malformed
  | some c => c.validate.map fun _ => c

/-- The settings in the file at a path, if they are valid. -/
def ofFile (d : Disk) (path : Path) : Except ConfigError Config :=
  match d.readText path with
  | .error cause => .error (.unreadable path cause)
  | .ok text => ofText text

end CallSampler.Config
