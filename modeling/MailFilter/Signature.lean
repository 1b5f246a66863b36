import MailFilter.Keyword

/-!
# Signatures

What arguments every command and test takes, and which capability it needs. A capability names an
extension that a script declares before it uses it.
-/

namespace MailFilter

/-- The types of arguments. A string also stands for a list of one string. -/
inductive ArgumentType where
  | string
  | strings
  | number
  | test
  | tests
  deriving DecidableEq, Repr

namespace ArgumentType

def text : ArgumentType → String
  | string => "string"
  | strings => "string-list"
  | number => "number"
  | test => "test"
  | tests => "test-list"

def isOfTests : ArgumentType → Bool
  | test | tests => true
  | _ => false

end ArgumentType

/-- A tag that a command or test accepts: the capability it needs, and the type of the argument that
follows it, if one does. -/
structure TagRule where
  name : String
  capability : Option String
  value : Option ArgumentType
  deriving DecidableEq, Repr

/-- The capability that a tag needs. An empty one is none. -/
def TagRule.need? (rule : TagRule) : Option String := rule.capability.filter (!·.isEmpty)

/-- What a command or test takes. -/
structure Signature where
  keyword : Keyword
  capability : Option String
  positional : List ArgumentType
  /-- How many positional arguments are needed; the ones that may be missing come first. -/
  needed : Nat
  tags : List TagRule
  /-- Of each group one tag is needed. -/
  tagGroups : List (List String)
  isTest : Bool
  hasBlock : Bool
  deriving DecidableEq, Repr

namespace Signature

/-- The capability that a command or test needs itself. An empty one is none. -/
def need? (s : Signature) : Option String := s.capability.filter (!·.isEmpty)

private def plain (name : String) : TagRule := ⟨name, none, none⟩

private def gated (name capability : String) : TagRule := ⟨name, some capability, none⟩

private def valued (name : String) (value : ArgumentType) : TagRule := ⟨name, none, some value⟩

private def gatedValued (name capability : String) (value : ArgumentType) : TagRule :=
  ⟨name, some capability, some value⟩

/-- How texts are compared. -/
def matching : List TagRule :=
  [valued ":comparator" .string, plain ":is", plain ":contains", plain ":matches",
   gated ":regex" "regex", gatedValued ":value" "relational" .string,
   gatedValued ":count" "relational" .string]

/-- Which part of an address is meant. -/
def addressPart : List TagRule :=
  [plain ":all", plain ":localpart", plain ":domain", gated ":user" "subaddress",
   gated ":detail" "subaddress"]

/-- Which of several header fields is meant. -/
def index : List TagRule := [gatedValued ":index" "index" .number, gated ":last" "index"]

/-- Which part of a message body is meant. -/
def bodyTransform : List TagRule := [plain ":raw", valued ":content" .strings, plain ":text"]

/-- Which time zone is meant. -/
def zone : List TagRule := [valued ":zone" .string, plain ":originalzone"]

def vacationTags : List TagRule :=
  [valued ":days" .number, gatedValued ":seconds" "vacation-seconds" .number,
   valued ":subject" .string, valued ":from" .string, valued ":addresses" .strings, plain ":mime",
   valued ":handle" .string]

def fileintoTags : List TagRule :=
  [gated ":copy" "copy", gated ":create" "mailbox", gatedValued ":flags" "imap4flags" .strings,
   gatedValued ":specialuse" "special-use" .string]

def setTags : List TagRule :=
  [plain ":lower", plain ":upper", plain ":lowerfirst", plain ":upperfirst", plain ":quotewildcard",
   plain ":length", gated ":encodeurl" "enotify"]

def notifyTags : List TagRule :=
  [valued ":from" .string, valued ":importance" .string, valued ":options" .strings,
   valued ":message" .string]

def includeTags : List TagRule :=
  [plain ":personal", plain ":global", plain ":once", plain ":optional"]

def duplicateTags : List TagRule :=
  [valued ":handle" .string, valued ":header" .string, valued ":uniqueid" .string,
   valued ":seconds" .number, plain ":last"]

/-- A command that needs all its positional arguments. -/
private def command (keyword : Keyword) (capability : Option String)
    (positional : List ArgumentType) (tags : List TagRule) : Signature :=
  ⟨keyword, capability, positional, positional.length, tags, [], false, false⟩

/-- A command with a block. -/
private def control (keyword : Keyword) (positional : List ArgumentType) : Signature :=
  ⟨keyword, none, positional, positional.length, [], [], false, true⟩

/-- A test that needs all its positional arguments. -/
private def test (keyword : Keyword) (capability : Option String)
    (positional : List ArgumentType) (tags : List TagRule) : Signature :=
  ⟨keyword, capability, positional, positional.length, tags, [], true, false⟩

/-- The signatures of all keywords: control commands, actions, tests. -/
def table : List Signature :=
  [command .require none [.strings] [],
   control .ifCommand [.test],
   control .elsifCommand [.test],
   control .elseCommand [],
   command .stop none [] [],
   command .keep none [] [gatedValued ":flags" "imap4flags" .strings],
   command .discard none [] [],
   command .redirect none [.string] [gated ":copy" "copy"],
   command .fileinto (some "fileinto") [.string] fileintoTags,
   command .reject (some "reject") [.string] [],
   command .ereject (some "ereject") [.string] [],
   command .vacation (some "vacation") [.string] vacationTags,
   { command .setflag (some "imap4flags") [.string, .strings] [] with needed := 1 },
   { command .addflag (some "imap4flags") [.string, .strings] [] with needed := 1 },
   { command .removeflag (some "imap4flags") [.string, .strings] [] with needed := 1 },
   command .setCommand (some "variables") [.string, .string] setTags,
   command .notify (some "enotify") [.string] notifyTags,
   command .includeCommand (some "include") [.string] includeTags,
   command .returnCommand (some "include") [] [],
   command .globalCommand (some "include") [.strings] [],
   command .addheader (some "editheader") [.string, .string] [plain ":last"],
   { command .deleteheader (some "editheader") [.string, .strings]
       (matching ++ [valued ":index" .number, plain ":last"]) with needed := 1 },
   test .address none [.strings, .strings] (matching ++ addressPart ++ index),
   test .allof none [.tests] [],
   test .anyof none [.tests] [],
   test .envelope (some "envelope") [.strings, .strings] (matching ++ addressPart),
   test .existsTest none [.strings] [],
   test .falseTest none [] [],
   test .header none [.strings, .strings] (matching ++ index),
   test .notTest none [.test] [],
   { test .size none [.number] [plain ":over", plain ":under"] with
       tagGroups := [[":over", ":under"]] },
   test .trueTest none [] [],
   test .body (some "body") [.strings] (matching ++ bodyTransform),
   test .date (some "date") [.string, .string, .strings] (matching ++ zone ++ index),
   test .currentdate (some "date") [.string, .strings] (matching ++ [valued ":zone" .string]),
   test .string (some "variables") [.strings, .strings] matching,
   { test .hasflag (some "imap4flags") [.strings, .strings] matching with needed := 1 },
   test .mailboxexists (some "mailbox") [.strings] [],
   test .duplicate (some "duplicate") [] duplicateTags,
   test .spamtest (some "spamtest") [.string] (matching ++ [gated ":percent" "spamtestplus"]),
   test .virustest (some "virustest") [.string] matching,
   test .environment (some "environment") [.string, .strings] matching,
   test .validNotifyMethod (some "enotify") [.strings] [],
   test .notifyMethodCapability (some "enotify") [.string, .string, .strings] matching]

def tag? (s : Signature) (name : String) : Option TagRule := s.tags.find? (·.name == name)

end Signature

end MailFilter
