import MailFilter.CommandLine.Word
import MailFilter.Text.Quoted

/-!
# Usage

The texts that say how the command line is used, and what is wrong with one.
-/

namespace MailFilter.CommandLine

def programName : String := "sievekit"

def versionText : String := programName ++ " 0.1.0\n"

private def textOfLines (lines : List String) : String := String.join (lines.map (· ++ "\n"))

def usageText : Option Verb → String
  | none => textOfLines
    ["usage: sievekit [-h] [--version] [--config CONFIG] [--debug]",
     "                \x7bparse,tokens,format,lint\x7d ..."]
  | some .parse => textOfLines ["usage: sievekit parse [-h] [-v] [--json] file"]
  | some .tokens => textOfLines ["usage: sievekit tokens [-h] [-m \x7b0,1\x7d] file"]
  | some .format => textOfLines ["usage: sievekit format [-h] [-i] [--check] file"]
  | some .lint => textOfLines
    ["usage: sievekit lint [-h] [--server-capabilities SERVER_CAPABILITIES] file"]

def helpText (verb : Option Verb) : String :=
  usageText verb ++ match verb with
  | none => textOfLines
    ["",
     "Sieve script toolkit",
     "",
     "positional arguments:",
     "  \x7bparse,tokens,format,lint\x7d",
     "                        Commands",
     "    parse               Parse a Sieve script",
     "    tokens              Show decoded token values",
     "    format              Format a Sieve script",
     "    lint                Validate a Sieve script",
     "",
     "options:",
     "  -h, --help            show this help message and exit",
     "  --version             show program's version number and exit",
     "  --config CONFIG       Configuration file (YAML)",
     "  --debug               Enable debug logging",
     "",
     "Examples:",
     "    sievekit parse filters.sieve -v",
     "    sievekit format filters.sieve --inplace",
     "    sievekit lint filters.sieve --server-capabilities fileinto,vacation",
     "    sievekit tokens snippet.sieve --mode 1"]
  | some .parse => textOfLines
    ["",
     "positional arguments:",
     "  file           File to parse",
     "",
     "options:",
     "  -h, --help     show this help message and exit",
     "  -v, --verbose",
     "  --json         Dump the tree as JSON"]
  | some .tokens => textOfLines
    ["",
     "positional arguments:",
     "  file                  File to tokenize",
     "",
     "options:",
     "  -h, --help            show this help message and exit",
     "  -m \x7b0,1\x7d, --mode \x7b0,1\x7d",
     "                        1 = first value only, 0 = all values of the statement"]
  | some .format => textOfLines
    ["",
     "positional arguments:",
     "  file           File to format",
     "",
     "options:",
     "  -h, --help     show this help message and exit",
     "  -i, --inplace  Modify in place",
     "  --check        Exit 1 if the file is not canonical"]
  | some .lint => textOfLines
    ["",
     "positional arguments:",
     "  file                  File to lint",
     "",
     "options:",
     "  -h, --help            show this help message and exit",
     "  --server-capabilities SERVER_CAPABILITIES",
     "                        Comma separated capabilities the server offers"]

/-- What is wrong with a command line. -/
inductive UsageFault where
  /-- A word that several switches start with. -/
  | ambiguous (ambiguity : Ambiguity)
  /-- A switch without a value has one glued to it. -/
  | valueIgnored (s : Switch) (value : String)
  | valueMissing (s : Switch)
  | notInteger (s : Switch) (value : String)
  | badMode (n : Int)
  | badVerb (name : String)
  | fileMissing
  /-- Words that mean nothing where they stand. -/
  | unrecognized (words : List String)

namespace UsageFault

private def about (name message : String) : String := "argument " ++ name ++ ": " ++ message

private def badChoice (shown : String) (choices : List String) : String :=
  "invalid choice: " ++ shown ++ " (choose from " ++ ", ".intercalate choices ++ ")"

def message : UsageFault → String
  | ambiguous a =>
    "ambiguous option: " ++ a.word ++ " could match " ++ ", ".intercalate (a.switches.map (·.long))
  | valueIgnored s value => about s.shown ("ignored explicit argument " ++ Text.quoted value)
  | valueMissing s => about s.shown "expected one argument"
  | notInteger s value => about s.shown ("invalid int value: " ++ Text.quoted value)
  | badMode n => about Switch.mode.shown (badChoice (toString n) ["0", "1"])
  | badVerb name =>
    about "command" (badChoice (Text.quoted name) (Verb.all.map fun v => Text.quoted v.text))
  | fileMissing => "the following arguments are required: file"
  | unrecognized words => "unrecognized arguments: " ++ " ".intercalate words

end UsageFault

/-- What ends the program before it does anything. -/
inductive Stop where
  | help (verb : Option Verb)
  | version
  /-- A command line that is not understood, before a verb or after one. -/
  | refused (verb : Option Verb) (fault : UsageFault)

def Stop.output : Stop → String
  | help verb => helpText verb
  | version => versionText
  | refused _ _ => ""

def Stop.errorLine? : Stop → Option String
  | refused verb fault =>
    some (programName ++ (verb.map fun v => " " ++ v.text).getD "" ++ ": error: " ++ fault.message)
  | _ => none

def Stop.diagnostics (s : Stop) : String :=
  match s, s.errorLine? with
  | refused verb _, some line => usageText verb ++ line ++ "\n"
  | _, _ => ""

def Stop.status : Stop → Nat
  | refused _ _ => 2
  | _ => 0

end MailFilter.CommandLine
