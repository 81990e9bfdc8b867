import CallSampler.Config.Reading
import CallSampler.Eligibility
import CallSampler.Notice
import CallSampler.Summary

/-!
# The command line

Two commands: `summary` shows what a file of samples holds, and `check` tells whether a module file
would be instrumented. Options are long, take their value behind an equals sign or as the next word,
and stop at a double dash. A value is judged only when the word after it is understood, so a word
that is not understood wins over a bad value before it.
-/

namespace CallSampler

inductive OutputFormat where
  | text
  | json
deriving DecidableEq, Repr

inductive Command where
  | summary (cache : Path) (format : OutputFormat) (function : Option String)
  | check (path : Path) (workspaceRoot config : Option Path)
deriving DecidableEq, Repr

structure Invocation where
  debug : Bool
  command : Command
deriving DecidableEq, Repr

/-- Why a command line asks for no command. Help and version are asked for, all else is a
mistake. -/
inductive UsageError where
  | displayHelp
  | displayVersion
  | helpOnNothing
  | missingSubcommand
  | invalidSubcommand
  | unknownArgument
  | argumentConflict
  | invalidValue
  | tooManyValues
  | missingRequired
deriving DecidableEq, Repr

def UsageError.exitCode : UsageError → Nat
  | .displayHelp => 0
  | .displayVersion => 0
  | _ => 2

def UsageError.message : UsageError → String
  | .displayHelp => "help was asked for"
  | .displayVersion => "the version was asked for"
  | .helpOnNothing => "there is no command"
  | .missingSubcommand => "there is no command"
  | .invalidSubcommand => "there is no such command"
  | .unknownArgument => "there is an argument too many or an unknown option"
  | .argumentConflict => "an option is given twice"
  | .invalidValue => "the value of an argument is missing or invalid"
  | .tooManyValues => "a value is given to an option that takes none"
  | .missingRequired => "a required argument is missing"

namespace CommandLine

inductive Word where
  /-- The double dash after which every word is a positional argument. -/
  | stop
  /-- A long option, with the value behind its equals sign. -/
  | long (name : String) (value : Option String)
  /-- Short options, the first letter of them. -/
  | short (letter : Char)
  | plain (text : String)
deriving DecidableEq, Repr

/-- See a word as an option parser does. One dash alone is plain. -/
def Word.of (text : String) : Word :=
  match text.toList with
  | ['-', '-'] => .stop
  | '-' :: '-' :: rest =>
    let name := String.ofList (rest.takeWhile (· ≠ '='))
    match rest.dropWhile (· ≠ '=') with
    | [] => .long name none
    | _ :: value => .long name (some (String.ofList value))
  | '-' :: letter :: _ => .short letter
  | _ => .plain text

structure Form where
  /-- The options that take a value. -/
  options : List String
  /-- The positional argument, which is required. -/
  positional : String
  /-- Whether a value will do for an argument. -/
  accepts : String → String → Bool

/-- A parser between two words. -/
structure Progress where
  debug : Bool
  /-- The arguments with their values. -/
  values : List (String × String)
  /-- An argument that is not settled yet, with its value if that has come. -/
  pending : Option (String × Option String)
  /-- Whether the positional argument has come. -/
  filled : Bool
  /-- Whether the double dash has come. -/
  stopped : Bool

/-- Settle the argument that is pending. -/
def Progress.settle (form : Form) (p : Progress) : Except UsageError Progress :=
  match p.pending with
  | none => .ok p
  | some (_, none) => .error .invalidValue
  | some (name, some value) =>
    if Entries.has name p.values then .error .argumentConflict
    else if !form.accepts name value then .error .invalidValue
    else .ok { p with values := p.values ++ [(name, value)], pending := none }

def Progress.long (form : Form) (p : Progress) (name : String) (value : Option String) :
    Except UsageError Progress :=
  if name ∈ form.options then do
    let p ← p.settle form
    let p := { p with pending := some (name, value) }
    if value.isSome then p.settle form else .ok p
  else if name = "debug" then
    if value.isSome then .error .tooManyValues
    else do
      let p ← p.settle form
      if p.debug then .error .argumentConflict else .ok { p with debug := true }
  else if name = "help" then
    if value.isSome then .error .tooManyValues
    else do
      let _ ← p.settle form
      .error .displayHelp
  else .error .unknownArgument

def Progress.positional (form : Form) (p : Progress) (text : String) : Except UsageError Progress :=
  if p.filled then .error .unknownArgument
  else do
    let p ← p.settle form
    .ok { p with pending := some (form.positional, some text), filled := true }

def Progress.word (form : Form) (p : Progress) (text : String) : Except UsageError Progress :=
  if p.stopped then p.positional form text
  else match Word.of text with
    | .stop => .ok { p with stopped := true }
    | .long name value => p.long form name value
    | .short 'h' => do
      let _ ← p.settle form
      .error .displayHelp
    | .short _ => .error .unknownArgument
    | .plain text =>
      match p.pending with
      | some (name, none) => .ok { p with pending := some (name, some text) }
      | _ => p.positional form text

def arguments (form : Form) (words : List String) : Except UsageError Progress := do
  let start := { debug := false, values := [], pending := none, filled := false, stopped := false }
  let p ← words.foldlM (Progress.word form) start
  let p ← p.settle form
  if p.filled then .ok p else .error .missingRequired

def format? (name : String) : Option OutputFormat :=
  if name = "text" then some .text else if name = "json" then some .json else none

def summaryForm : Form where
  options := ["format", "function"]
  positional := "CACHE"
  accepts := fun name value =>
    if name = "format" then (format? value).isSome
    else if name = "CACHE" then !value.isEmpty
    else true

/-- What `check` accepts: paths, which are never empty. -/
def checkForm : Form where
  options := ["workspace-root", "config"]
  positional := "PATH"
  accepts := fun _ value => !value.isEmpty

def Progress.path? (p : Progress) (name : String) : Option Path :=
  (Entries.get? name p.values).map Path.mk

/-- The command that some arguments to `summary` ask for. -/
def Progress.summary (p : Progress) : Command :=
  .summary ((p.path? "CACHE").getD { text := "" })
    (((Entries.get? "format" p.values).bind format?).getD .text) (Entries.get? "function" p.values)

/-- The command that some arguments to `check` ask for. -/
def Progress.check (p : Progress) : Command :=
  .check ((p.path? "PATH").getD { text := "" }) (p.path? "workspace-root") (p.path? "config")

/-- What `help` leads to: help for a command, of which at most one may be named. -/
def help (words : List String) : UsageError :=
  match words with
  | [] => .displayHelp
  | [name] => if name ∈ ["summary", "check", "help"] then .displayHelp else .invalidSubcommand
  | _ => .invalidSubcommand

/-- Understand a command line, of which `--debug` may have come. -/
def parseFrom (debug : Bool) : List String → Except UsageError Invocation
  | [] => .error (if debug then .missingSubcommand else .helpOnNothing)
  | text :: rest =>
    match Word.of text with
    | .stop =>
      if rest.isEmpty then .error (if debug then .missingSubcommand else .helpOnNothing)
      else .error .unknownArgument
    | .long name value =>
      if name = "debug" ∨ name = "help" ∨ name = "version" then
        if value.isSome then .error .tooManyValues
        else if name = "help" then .error .displayHelp
        else if name = "version" then .error .displayVersion
        else if debug then .error .argumentConflict
        else parseFrom true rest
      else .error .unknownArgument
    | .short 'h' => .error .displayHelp
    | .short 'V' => .error .displayVersion
    | .short _ => .error .unknownArgument
    | .plain text =>
      if text = "summary" then do
        let p ← arguments summaryForm rest
        .ok { debug := debug || p.debug, command := p.summary }
      else if text = "check" then do
        let p ← arguments checkForm rest
        .ok { debug := debug || p.debug, command := p.check }
      else if text = "help" then .error (help rest)
      else .error .invalidSubcommand

def parse (words : List String) : Except UsageError Invocation := parseFrom false words

/-! ## Running a command -/

inductive Failure where
  | summary (cause : SummaryError)
  | noSamples (function : String)
  | config (cause : ConfigError)
  | noRules
deriving DecidableEq, Repr

def Failure.message : Failure → String
  | .summary cause => cause.message
  | .noSamples function => "No samples recorded for " ++ function
  | .config cause => cause.message
  | .noRules => "Must specify --workspace-root or --config"

/-- The cause of a failure, where there is one to tell. -/
def Failure.cause? : Failure → Option String
  | .summary cause => cause.cause?
  | .noSamples _ => none
  | .config cause => cause.cause?
  | .noRules => none

/-- What a command does: the notices it gives, and what it prints unless it fails. -/
structure Report where
  notices : List Notice
  result : Except Failure String

def summarize (d : Disk) (cache : Path) (format : OutputFormat) (function : Option String) :
    Report :=
  match Summary.ofFile d cache with
  | .error e => { notices := [], result := .error (.summary e) }
  | .ok (summary, dropped) =>
    let write (s : Summary) : String := match format with
      | .text => s.table
      | .json => s.toJson.pretty ++ "\n"
    let result := match function with
      | none => .ok (write summary)
      | some name =>
        if (summary.only name).isEmpty then .error (.noSamples name)
        else .ok (write (summary.only name))
    { notices := dropped.map .droppedEntry, result }

/-- The rules that a check goes by. A root on the command line wins over the one in a file, whose
other settings still count. -/
def checkConfig (d : Disk) (workspaceRoot config : Option Path) : Except Failure Config :=
  match config, workspaceRoot with
  | some file, root? =>
    match Config.ofFile d file with
    | .error e => .error (.config e)
    | .ok c => .ok { c with workspaceRoot := root?.getD c.workspaceRoot }
  | none, some root => .ok (Config.ofPaths { text := "" } root)
  | none, none => .error .noRules

def check (d : Disk) (path : Path) (workspaceRoot config : Option Path) : Report :=
  let result := (checkConfig d workspaceRoot config).map fun c =>
    match (Eligibility.ofConfig d.cwd c).classify d.cwd (some path) with
    | none => "instrument: " ++ path.text ++ "\n"
    | some reason => "skip: " ++ path.text ++ " (" ++ reason.text ++ ")\n"
  { notices := [], result }

def runCommand (d : Disk) : Command → Report
  | .summary cache format function => summarize d cache format function
  | .check path workspaceRoot config => check d path workspaceRoot config

structure Output where
  exitCode : Nat
  stdout : String
  notices : List Notice
  failure : Option Failure

def versionLine : String := "muestreo 0.1.0\n"

def run (d : Disk) (words : List String) : Output :=
  match parse words with
  | .error e =>
    { exitCode := e.exitCode, stdout := if e = .displayVersion then versionLine else ""
      notices := [], failure := none }
  | .ok i =>
    let report := runCommand d i.command
    match report.result with
    | .ok text => { exitCode := 0, stdout := text, notices := report.notices, failure := none }
    | .error e =>
      { exitCode := 1, stdout := "", notices := report.notices, failure := some e }

def filesOf (words : List String) : List Path :=
  match parse words with
  | .ok { command := .summary cache _ _, .. } => [cache]
  | .ok { command := .check _ _ config, .. } => config.toList
  | .error _ => []

end CommandLine

end CallSampler
