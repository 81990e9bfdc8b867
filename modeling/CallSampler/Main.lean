import CallSampler.CommandLine

/-!
# The program

Reads the files that a command line names, runs the command on them, and prints.
-/

namespace CallSampler.CommandLine

def usage : String :=
  "Usage: muestreo [--debug] <COMMAND>\n\n" ++
  "  summary <CACHE> [--format text|json] [--function NAME]\n" ++
  "      Summarize a file of samples\n" ++
  "  check <PATH> [--workspace-root ROOT] [--config FILE]\n" ++
  "      Report whether a module file would be instrumented\n"

/-- A disk on which the given files and directories are as they are, where they can be read at
all. -/
def diskOf (files : List Path) : IO Disk := do
  let cwd ← IO.currentDir
  files.foldlM (fun d file => do
    if ← (cwd / file.text).isDir then pure (d.createDirectories file).2
    else match ← (IO.FS.readBinFile file.text).toBaseIO with
      | .ok bytes => pure (d.plant file (Content.ofBytes bytes.toList))
      | .error _ => pure d) (Disk.empty (Path.names { text := cwd.toString }))

/-- The lines that tell a failure and its cause. -/
def Failure.report (f : Failure) : String :=
  "Error: " ++ f.message ++ ((f.cause?.map fun c => "\n\nCaused by:\n    " ++ c).getD "")

end CallSampler.CommandLine

open CallSampler in
def main (args : List String) : IO UInt32 := do
  match CommandLine.parse args with
  | .error .displayHelp => IO.print CommandLine.usage
  | .error .displayVersion => pure ()
  | .error e => IO.eprint ("error: " ++ e.message ++ "\n\n" ++ CommandLine.usage)
  | .ok _ => pure ()
  let disk ← CommandLine.diskOf (CommandLine.filesOf args)
  let output := CommandLine.run disk args
  for notice in output.notices do
    IO.eprintln (tagged notice.text)
  IO.print output.stdout
  if let some failure := output.failure then
    IO.eprintln failure.report
  return output.exitCode.toUInt32
