import MailFilter.Files
import MailFilter.Registry
import MailFilter.Script.Layout
import MailFilter.Script.Reading
import MailFilter.Text.Lines
import MailFilter.Value.Yaml.Token

/-!
# Settings

How scripts are read, checked and laid out when nothing else is said: values that a document in
YAML gives, and that environment variables replace. Values are kept as they were written; what one
means, and whether it means anything, shows when it is asked for. What reads YAML is given from
outside.
-/

namespace MailFilter

/-- Settings, each as it was written, and the document that they come from. -/
structure Settings where
  indent : Value
  newline : Value
  threshold : Value
  comments : Value
  limit : Value
  charset : Value
  server : Value
  source : Option Path

/-- Why a setting means nothing. -/
inductive SettingError where
  | indent (value : String)
  | newline (value : String)
  | integer (error : Value.IntegerError)
  /-- More blanks than a text can hold. -/
  | tooWide (width : Int)
  /-- The capabilities of the server are no list. -/
  | notNames
  | layout (error : LayoutError)

/-- The text of the error; a value of the wrong kind is told by its kind alone. -/
def SettingError.message : SettingError → String
  | indent value => "Invalid indent setting " ++ Text.quoted value
  | newline value => "Invalid newline setting " ++ Text.quoted value ++ " (use 'lf' or 'crlf')"
  | integer error => error.message
  | tooWide _ => "cannot fit 'int' into an index-sized integer"
  | notNames => ""
  | layout error => error.message

namespace Settings

def default : Settings where
  indent := .int 4
  newline := .text "lf"
  threshold := .int 1024
  comments := .bool true
  limit := defaultLimit
  charset := .text "utf-8"
  server := .null
  source := none

/-- Settings with those that a record has replaced by its own. -/
def updated (s : Settings) (fields : Value) : Settings :=
  let pick (name : String) (old : Value) : Value := (fields.get? name).getD old
  { s with
    indent := pick "indent" s.indent
    newline := pick "newline" s.newline
    threshold := pick "multiline_threshold" s.threshold
    comments := pick "include_comments" s.comments
    limit := pick "max_depth" s.limit
    charset := pick "charset" s.charset
    server := pick "server_capabilities" s.server }

/-! ## What settings mean -/

/-- The widest indentation, in blanks. -/
def maxWidth : Int := 4294967296

/-- As many blanks as a value says. -/
def blanks (v : Value) : Except SettingError String := do
  let n ← v.toInteger.mapError .integer
  if n ≥ maxWidth then throw (.tooWide n)
  return String.ofList (List.replicate n.toNat ' ')

/-- One level of indentation: a tab, or some blanks. -/
def indentText (s : Settings) : Except SettingError String :=
  match s.indent with
  | .text t =>
    let digits := Text.trim t.toList
    if Text.lower t == "tab" || t == "\t" then .ok "\t"
    else if digits.isEmpty || !digits.all Text.isDigit then .error (.indent t)
    else blanks s.indent
  | v => blanks v

/-- The line ending that a setting calls by its name or writes out. -/
def ending? (value : String) : Option LineEnding :=
  if value == "lf" then some .lf else if value == "crlf" then some .crlf
  else LineEnding.ofText? value

/-- The line ending; its name may be in any letter case. -/
def ending (s : Settings) : Except SettingError LineEnding :=
  let value := s.newline.plain
  match (ending? value).or (ending? (Text.lower value)) with
  | some e => .ok e
  | none => .error (.newline value)

def thresholdNumber (s : Settings) : Except SettingError Int := s.threshold.toInteger.mapError .integer

def limitNumber (s : Settings) : Except SettingError Int := s.limit.toInteger.mapError .integer

def charsetName (s : Settings) : String := s.charset.plain

/-- The names in a text, which commas and blanks part. -/
def splitNames (text : String) : List String :=
  Text.words (String.ofList (text.toList.map fun c => if c == ',' then ' ' else c))

/-- The capabilities that the server offers, if it is told. -/
def serverNames (s : Settings) : Except SettingError (Option (List String)) :=
  match s.server with
  | .null => .ok none
  | .text t => .ok (some (splitNames t))
  | v => match v.items? with
    | some items => .ok (some (items.map Value.plain))
    | none => .error .notNames

def layout (s : Settings) : Except SettingError LayoutOptions := do
  let indent ← s.indentText
  let ending ← s.ending
  let threshold ← s.thresholdNumber
  (LayoutOptions.make (.text indent) (.text ending.text) (.int threshold) s.comments.isTrue true true).mapError .layout

def registry (s : Settings) : Except SettingError Registry :=
  s.serverNames.map (Registry.make Signature.table)

/-! ## Where settings come from -/

/-- The environment variables that replace settings, with the names of the settings. -/
def variableNames : List (String × String) :=
  [("SIEVEKIT_INDENT", "indent"), ("SIEVEKIT_NEWLINE", "newline"),
   ("SIEVEKIT_MAX_DEPTH", "max_depth"), ("SIEVEKIT_CHARSET", "charset"),
   ("SIEVEKIT_SERVER_CAPABILITIES", "server_capabilities")]

/-- The settings that an environment has, as a record. -/
def ofEnvironment (environment : List (String × String)) : Value :=
  .record (variableNames.filterMap fun (key, name) =>
    (environment.lookup key).map fun value => (name, .text value))

/-- What was wrong with a document that was looked at. -/
inductive Notice where
  /-- A folder stands in its place. -/
  | unreadable (error : FileError)
  /-- It is not in YAML. -/
  | malformed
  /-- It is no record. -/
  | notRecord

def Notice.message (path : Path) : Notice → String
  | unreadable error => "Failed to load config from " ++ path.text ++ ": " ++ error.message
  | malformed => "Failed to load config from " ++ path.text ++ ": invalid document"
  | notRecord => "Ignoring config " ++ path.text ++ ": top level must be a mapping"

/-- What ends the reading of settings. -/
inductive DocumentError where
  /-- The document is no text. -/
  | bytes (error : Text.DecodeError)
  /-- It has a scalar that stands for nothing. -/
  | scalar (fault : Value.Yaml.ScalarFault)

def DocumentError.message : DocumentError → String
  | bytes error => error.message
  | scalar fault => fault.message

/-- Notices, each with the document that it is about. -/
abbrev Notices := List (Path × Notice)

/-- The text of a document. A sequence that the end of the document cuts off counts its bytes from
its own start. -/
def documentText (bytes : Text.Bytes) : Except Text.DecodeError (List Char) :=
  match Text.Charset.utf8.decode bytes with
  | .ok cs => .ok (Text.unifyBreaks cs)
  | .error e => .error (if e.reason == .unexpectedEnd then { e with start := 0 } else e)

/-- What reads a text in YAML: the value that it holds, or what is wrong with it. -/
abbrev YamlReader := List Char → Except Value.Yaml.Fault Value

/-- The record that a document is. A document without anything in it is an empty record. -/
def readDocument (yaml : YamlReader) (bytes : Text.Bytes) :
    Except DocumentError (Except Notice Value) := do
  match yaml (← (documentText bytes).mapError .bytes) with
  | .error .malformed => return .error .malformed
  | .error (.scalar fault) => throw (.scalar fault)
  | .ok v =>
    if !v.isTrue then return .ok (.record [])
    match v with
    | .record fields => return .ok (.record fields)
    | _ => return .error .notRecord

/-- The first document among some paths that is a record, and notices about those before it. -/
def findDocument (yaml : YamlReader) (view : View) :
    List Path → Except DocumentError (Option (Path × Value) × Notices)
  | [] => .ok (none, [])
  | path :: paths => do
    let found ← match view path with
      | .missing | .belowFile => pure none
      | .directory => pure (some (.error (.unreadable (.directory path))))
      | .file bytes => (readDocument yaml bytes).map some
    match found with
    | some (.ok v) => return (some (path, v), [])
    | some (.error notice) =>
      let (document, notices) ← findDocument yaml view paths
      return (document, (path, notice) :: notices)
    | none => findDocument yaml view paths

def load (yaml : YamlReader) (environment : List (String × String)) (view : View)
    (paths : List Path) : Except DocumentError (Settings × Notices) := do
  let (document, notices) ← findDocument yaml view paths
  let settings := match document with
    | some (path, fields) => { default.updated fields with source := some path }
    | none => default
  return (settings.updated (ofEnvironment environment), notices)

/-- Where settings are looked for in a home folder, and where new ones are written. -/
def usualPath : Path := .ofText ".sievekit/config.yaml"

/-- A document to start with: all settings as they are when nothing is said. -/
def sampleDocument : String := String.join <| List.map (· ++ "\n")
  ["# sievekit configuration",
   "#",
   "# Any setting here can also be overridden with a SIEVEKIT_* environment variable.",
   "",
   "# Formatting",
   "indent: 4                    # spaces per nesting level, or \"tab\"",
   "newline: lf                  # lf or crlf",
   "multiline_threshold: 1024    # strings longer than this use text: form",
   "include_comments: true",
   "",
   "# Parsing",
   "max_depth: 64",
   "charset: utf-8",
   "",
   "# Capabilities the server advertises (leave unset to allow everything)",
   "# server_capabilities:",
   "#   - fileinto",
   "#   - vacation",
   "#   - imap4flags"]

/-- A folder with a document to start with under a path. -/
def writeSample (folder : Folder) (path : Path) : Folder :=
  folder.write path (sampleDocument.toList.flatMap Text.utf8Bytes)

end Settings

end MailFilter
