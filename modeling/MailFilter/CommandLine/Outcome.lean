import MailFilter.CommandLine.Invocation
import MailFilter.Script.Problem
import MailFilter.Script.Record

/-!
# Outcomes

What an invocation does: the text that it writes, what it tells about faults, how it ends, and the
file that it replaces. Faults of scripts and missing files end a run with a line of text; what is
wrong with settings ends it without one.
-/

namespace MailFilter.CommandLine

/-- What an invocation can see: the environment, files, and where settings are looked for. With it
comes what reads YAML. -/
structure Surroundings where
  yaml : Settings.YamlReader
  environment : List (String × String)
  view : View
  search : List Path

/-- Why a run ends early. -/
inductive Failure where
  | file (error : FileError)
  | read (error : ReadError)
  | setting (error : SettingError)
  | document (error : Settings.DocumentError)
  | write (error : WriteError)
  /-- Something that is no argument and has no record. No script that was read has it. -/
  | record (shown : String)

def Failure.message : Failure → String
  | file error => error.message
  | read error => error.message
  | setting error => error.message
  | document error => error.message
  | write error => error.message
  | record shown => cannotSerialize shown

def Failure.isExpected : Failure → Bool
  | file _ => true
  | read (.invalid _) => true
  | read (.tooDeep _) => true
  | _ => false

/-- How a run ends. -/
inductive Ending where
  | status (n : Nat)
  | failed (failure : Failure)

/-- What a run does. -/
structure Outcome where
  output : String := ""
  diagnostics : String := ""
  ending : Ending := .status 0
  written : Option (Path × Text.Bytes) := none

def Outcome.ofFailure (diagnostics label : String) (expected : Bool) (failure : Failure) : Outcome :=
  if expected then
    { diagnostics := diagnostics ++ label ++ ": " ++ failure.message ++ "\n", ending := .status 1 }
  else { diagnostics, ending := .failed failure }

/-- A run on a file, with settings, what was noticed when they were read, and what is noticed if
they are read again. -/
structure Run where
  surroundings : Surroundings
  settings : Settings
  noticed : String
  noticedAgain : String
  debug : Bool
  file : String

namespace Run

def path (r : Run) : Path := .ofText r.file

def note (r : Run) (source message : String) : String :=
  if r.debug then "DEBUG sievekit." ++ source ++ ": " ++ message ++ "\n" else ""

def bytes (r : Run) : Except Failure Text.Bytes :=
  (r.surroundings.view.read r.path).mapError .file

def script (r : Run) : Except Failure Script := do
  let bytes ← r.bytes
  let limit ← r.settings.limitNumber.mapError .setting
  (Script.ofBytes r.settings.charsetName bytes r.file ⟨.default, .int limit⟩).mapError .read

def parsedNote (r : Run) (s : Script) : String :=
  r.note "parser.parser" <| "Parsed " ++ r.file ++ ": " ++ toString s.commands.length ++
    " top-level commands, capabilities " ++ Text.quotedList s.capabilities

def listed : Nat := 20

def summary (r : Run) (verbose : Bool) (s : Script) : String :=
  let count := s.commands.length
  let capabilities := ", ".intercalate s.capabilities
  let lines :=
    ["Parsed: " ++ r.file,
     "Capabilities: " ++ (if capabilities.isEmpty then "(none)" else capabilities),
     "Top-level commands: " ++ toString count]
  let names := (s.commands.take listed).map fun c =>
    "  - " ++ c.head.name ++ match c.head.ruleName? with
      | some rule => if rule.isEmpty then "" else " [" ++ rule ++ "]"
      | none => ""
  let more := if count > listed then ["  ... and " ++ toString (count - listed) ++ " more"] else []
  String.join ((lines ++ if verbose then names ++ more else []).map (· ++ "\n"))

def parse (r : Run) (verbose json : Bool) : Outcome :=
  match r.script with
  | .error failure => .ofFailure r.noticed "Parse error" failure.isExpected failure
  | .ok s =>
    let diagnostics := r.noticed ++ r.parsedNote s
    if json then
      match s.toValue with
      | .ok v => { output := v.jsonLines 0 ++ "\n", diagnostics }
      | .error shown => .ofFailure diagnostics "" false (.record shown)
    else { output := r.summary verbose s, diagnostics }

def tokens (r : Run) (mode : Statement.Mode) : Outcome :=
  let value : Except Failure Value := do
    let bytes ← r.bytes
    (Statement.inspectBytes mode r.settings.charsetName bytes).mapError .read
  match value with
  | .ok v => { output := v.jsonLines 0 ++ "\n", diagnostics := r.noticed }
  | .error failure =>
    let expected := match failure with
      | .read (.bytes _) => true
      | failure => failure.isExpected
    .ofFailure r.noticed "Error" expected failure

/-- Writes a text in place of the file. A text that the charset lacks leaves the file empty. -/
def replaceFile (r : Run) (text diagnostics : String) : Outcome :=
  match encodeText r.settings.charsetName text with
  | .ok bytes =>
    { output := "Formatted: " ++ r.file ++ "\n", diagnostics, written := some (r.path, bytes) }
  | .error error =>
    { Outcome.ofFailure diagnostics "" false (.write error) with written := some (r.path, []) }

def compare (r : Run) (text diagnostics : String) : Outcome :=
  let held : Except Failure String := do
    (Script.decode r.settings.charsetName (← r.bytes)).mapError .read
  match held with
  | .error failure => .ofFailure diagnostics "" false failure
  | .ok held =>
    if held == text then { diagnostics }
    else { output := "Would reformat: " ++ r.file ++ "\n", diagnostics, ending := .status 1 }

def format (r : Run) (inplace check : Bool) : Outcome :=
  match r.settings.layout with
  | .error error => .ofFailure r.noticed "" false (.setting error)
  | .ok layout =>
    let noticed := r.noticed ++ r.noticedAgain
    match r.script with
    | .error failure => .ofFailure noticed "Error" failure.isExpected failure
    | .ok s =>
      let text := s.text layout
      let diagnostics := noticed ++ r.parsedNote s ++
        r.note "tools.format" ("Formatted " ++ r.file ++ ": " ++ toString s.commands.length ++
          " commands, " ++ toString text.length ++ " characters")
      if check then r.compare text diagnostics
      else if inplace then r.replaceFile text diagnostics
      else { output := text, diagnostics }

/-- Tells the problems of the script. Names that are given count in place of those of the
settings. -/
def lint (r : Run) (server : Option (List String)) : Outcome :=
  let noticed := r.noticed ++ r.noticedAgain
  match r.script with
  | .error failure => .ofFailure noticed "Parse error" failure.isExpected failure
  | .ok s =>
    let diagnostics := noticed ++ r.parsedNote s
    match r.settings.serverNames with
    | .error error => .ofFailure diagnostics "" false (.setting error)
    | .ok names =>
      let problems := s.problems (Registry.make Signature.table (server.or names))
      let count := toString problems.length
      let diagnostics := diagnostics ++
        r.note "tools.lint" ("Validated " ++ r.file ++ ": " ++ count ++ " problems")
      if problems.isEmpty then { output := "No issues found\n", diagnostics }
      else
        { output := String.join (problems.map (·.text ++ "\n")) ++ "\n" ++ count ++ " issues found\n"
          diagnostics
          ending := .status 1 }

def task (r : Run) : Task → Outcome
  | .parse verbose json => r.parse verbose json
  | .tokens mode => r.tokens mode
  | .format inplace check => r.format inplace check
  | .lint server => r.lint server

end Run

namespace Invocation

/-- Where settings are looked for: in the document that is named, or in the usual ones. -/
def documents (i : Invocation) (search : List Path) : List Path :=
  match i.config with
  | some path => [path]
  | none => search

def inputs (i : Invocation) (search : List Path) : List Path :=
  match i.task with
  | some (_, file) => i.documents search ++ [.ofText file]
  | none => []

/-- Does what a command line asks for; without a task that is to tell how to ask. Settings of a
document that is named are read whenever they are needed, others once. -/
def run (s : Surroundings) (i : Invocation) : Outcome :=
  match i.task with
  | none => { output := helpText none }
  | some (task, file) =>
    match Settings.load s.yaml s.environment s.view (i.documents s.search) with
    | .error error => .ofFailure "" "" false (.document error)
    | .ok (settings, notices) =>
      let noticed := String.join <| notices.map fun (path, notice) =>
        "WARNING sievekit.config: " ++ notice.message path ++ "\n"
      let again := if i.config.isSome then noticed else ""
      Run.task ⟨s, settings, noticed, again, i.debug, file⟩ task

end Invocation

end MailFilter.CommandLine
