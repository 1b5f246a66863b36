import MailFilter.CommandLine.Outcome
import MailFilter.Value.Yaml.Document

/-!
# The program

Reads the command line, the environment and the files that an invocation needs, and does what the
outcome says.
-/

namespace MailFilter

def lookAt (path : Path) : IO Entry := do
  try
    let bytes ← IO.FS.readBinFile path.text
    return .file bytes.toList
  catch
    | .noFileOrDirectory .. => return .missing
    | .inappropriateType .. => return .directory
    | error => throw error

def readEnvironment : IO (List (String × String)) :=
  Settings.variableNames.filterMapM fun (key, _) => do return (← IO.getEnv key).map (key, ·)

def searchPaths : IO (List Path) := do
  return (← IO.getEnv "HOME").toList.map fun home =>
    .ofText (home ++ "/" ++ Settings.usualPath.text)

def perform (outcome : CommandLine.Outcome) : IO UInt32 := do
  IO.print outcome.output
  IO.eprint outcome.diagnostics
  if let some (path, bytes) := outcome.written then
    IO.FS.writeBinFile path.text (ByteArray.mk bytes.toArray)
  match outcome.ending with
  | .status n => return n.toUInt32
  | .failed failure =>
    IO.eprintln (CommandLine.programName ++ ": " ++ failure.message)
    return 1

end MailFilter

open MailFilter in
def main (args : List String) : IO UInt32 := do
  match CommandLine.Invocation.ofWords args with
  | .error stop =>
    IO.print stop.output
    IO.eprint stop.diagnostics
    return stop.status.toUInt32
  | .ok invocation =>
    let search ← searchPaths
    let entries ← (invocation.inputs search).mapM fun path => do return (path, ← lookAt path)
    let view : View := fun path => (entries.lookup path).getD .missing
    perform (invocation.run ⟨Value.ofYaml, ← readEnvironment, view, search⟩)
