import MailFilter.Script.Usage

/-!
# Problems of a script

What is wrong with a script that can be read: unknown names, capabilities that are not declared or
not offered, arguments that do not fit a signature, and commands out of place. `Script.problems`
lists all of it in the order of the script.
-/

namespace MailFilter

/-- What is wrong. Names are those of the command or test at fault. -/
inductive Complaint where
  | unknownCommand (name : String)
  | unknownTest (name : String)
  | testAsCommand (name : String)
  | commandAsTest (name : String)
  | undeclared (name capability : String)
  | undeclaredTag (tag capability : String)
  | undeclaredComparator (comparator capability : String)
  | unsupported (capability : String)
  | unknownTag (name tag : String)
  /-- A tag without the value it expects. -/
  | tagValue (tag : String) (type : ArgumentType)
  /-- No tag of a group of which one is needed. -/
  | tagGroup (name : String) (group : List String)
  | tooFew (name : String) (needed found : Nat)
  | extra (name : String)
  | wrongType (name : String) (type : ArgumentType)
  | noTests (name : String)
  | notOneTest (name : String) (found : Nat)
  | nestedTests (name : String)
  | lateRequire
  /-- An `elsif` or `else` that follows neither `if` nor `elsif`. -/
  | looseBranch (name : String)
  deriving DecidableEq, Repr

namespace Complaint

/-- The kinds of complaints. -/
inductive Kind where
  | unknownCommand
  | unknownTest
  | unknownTag
  | missingCapability
  | unsupportedCapability
  | missingArgument
  | wrongArgument
  | misplacedCommand
  deriving DecidableEq, Repr

def Kind.text : Kind → String
  | unknownCommand => "unknown-command"
  | unknownTest => "unknown-test"
  | unknownTag => "unknown-tag"
  | missingCapability => "missing-capability"
  | unsupportedCapability => "unsupported-capability"
  | missingArgument => "missing-argument"
  | wrongArgument => "wrong-argument"
  | misplacedCommand => "misplaced-command"

def kind : Complaint → Kind
  | unknownCommand _ => .unknownCommand
  | unknownTest _ => .unknownTest
  | testAsCommand _ | commandAsTest _ | lateRequire | looseBranch _ => .misplacedCommand
  | undeclared .. | undeclaredTag .. | undeclaredComparator .. => .missingCapability
  | unsupported _ => .unsupportedCapability
  | unknownTag .. => .unknownTag
  | tagValue .. | tagGroup .. | tooFew .. | noTests _ => .missingArgument
  | extra _ | wrongType .. | nestedTests _ => .wrongArgument
  | notOneTest _ found => if found == 0 then .missingArgument else .wrongArgument

def capability? : Complaint → Option String
  | undeclared _ c | undeclaredTag _ c | undeclaredComparator _ c | unsupported c => some c
  | _ => none

private def named (name : String) : String := "'" ++ name ++ "'"

def detail : Complaint → String
  | unknownCommand name => "Unknown command " ++ named name
  | unknownTest name => "Unknown test " ++ named name
  | testAsCommand name => named name ++ " is a test and cannot be used as a command"
  | commandAsTest name => named name ++ " is a command and cannot be used as a test"
  | undeclared name c => named name ++ " requires capability " ++ named c
  | undeclaredTag tag c => "Tag " ++ named tag ++ " requires capability " ++ named c
  | undeclaredComparator comparator c =>
    "Comparator " ++ named comparator ++ " requires capability " ++ named c
  | unsupported c => "Capability " ++ named c ++ " is not supported by the server"
  | unknownTag name tag => named name ++ " does not accept tag " ++ named tag
  | tagValue tag type => "Tag " ++ named tag ++ " expects a " ++ type.text ++ " value"
  | tagGroup name group =>
    named name ++ " requires " ++ " or ".intercalate (group.mergeSort (· ≤ ·))
  | tooFew name needed found =>
    named name ++ " expects " ++ toString needed ++ " argument(s), got " ++ toString found
  | extra name => "Unexpected extra argument to " ++ named name
  | wrongType name type => named name ++ " expects a " ++ type.text ++ " here"
  | noTests name => named name ++ " expects a test list"
  | notOneTest name found => named name ++ " expects exactly one test, got " ++ toString found
  | nestedTests name => named name ++ " does not take nested tests"
  | lateRequire => "require must come before any other command"
  | looseBranch name => named name ++ " must follow 'if' or 'elsif'"

end Complaint

/-- A complaint, where it is, and about which command or test. -/
structure Problem (α : Type := Pos) (τ : Type := String) where
  complaint : Complaint
  mark : α
  node : τ
  deriving DecidableEq, Repr

namespace Problem

def location [Located α] (p : Problem α τ) : String := (Located.location p.mark).text

def text [Located α] (p : Problem α τ) : String :=
  let capability := match p.complaint.capability? with
    | some c => if c.isEmpty then "" else " (capability '" ++ c ++ "')"
    | none => ""
  "[" ++ p.complaint.kind.text ++ "] " ++ p.location ++ ": " ++ p.complaint.detail ++ capability

end Problem

/-! ## How arguments are used -/

def Argument.hasType : Argument α τ → ArgumentType → Bool
  | .string .., .string | .string .., .strings | .strings .., .strings => true
  | .number .., .number | .test _, .test => true
  | _, _ => false

/-- What an argument is to a signature. -/
inductive Use (α : Type) (τ : Type := String) where
  | positional (argument : Argument α τ)
  /-- A tag that the signature does not accept. -/
  | unknown (tag : τ) (mark : α)
  /-- A tag that takes no value. -/
  | flag (rule : TagRule) (mark : α)
  | valued (rule : TagRule) (mark : α) (value : Argument α τ)
  /-- A tag whose value is missing or of another type. -/
  | lacking (rule : TagRule) (mark : α) (type : ArgumentType)

namespace Use

/-- The uses of arguments: a tag takes the argument after it if that is of the right type. -/
def ofArguments [Leaf τ] (s : Signature) : List (Argument α τ) → List (Use α τ)
  | [] => []
  | .tag name mark :: rest =>
    match (Leaf.text? name).bind s.tag? with
    | none => unknown name mark :: ofArguments s rest
    | some rule =>
      match rule.value, rest with
      | none, rest => flag rule mark :: ofArguments s rest
      | some type, [] => [lacking rule mark type]
      | some type, value :: rest =>
        if !value.isTag && value.hasType type then valued rule mark value :: ofArguments s rest
        else lacking rule mark type :: ofArguments s (value :: rest)
  | argument :: rest => positional argument :: ofArguments s rest
termination_by arguments => arguments.length

def positional? : Use α τ → Option (Argument α τ)
  | positional argument => some argument
  | _ => none

def rule? : Use α τ → Option TagRule
  | flag rule _ | valued rule _ _ | lacking rule _ _ => some rule
  | _ => none

end Use

/-! ## Commands and tests -/

/-- A command or a test that is checked: its name, its arguments, what stands inside it, where it
is, and whether it stands for a test. -/
structure Node (α : Type := Pos) (τ : Type := String) where
  name : τ
  arguments : List (Argument α τ)
  inner : List (Argument α τ)
  mark : α
  isTest : Bool

namespace Node

variable [Leaf τ]

def named (n : Node α τ) : String := Leaf.plain n.name

def problem (n : Node α τ) (c : Complaint) : Problem α τ := ⟨c, n.mark, n.name⟩

def ofHead (h : Head α τ) : Node α τ := ⟨h.name, h.arguments, [], h.mark, false⟩

def ofTest (t : Test α τ) : Node α τ := ⟨t.name, t.arguments, t.inner, t.mark, true⟩

def comparatorProblems (n : Node α τ) (declared : List String) :
    Argument α τ → List (Problem α τ)
  | .string value _ mark =>
    match (Leaf.text? value).bind comparatorCapability? with
    | some c =>
      if declared.contains c then []
      else [⟨.undeclaredComparator (Leaf.plain value) c, mark, n.name⟩]
    | none => []
  | _ => []

def tagProblems (n : Node α τ) (declared : List String) (rule : TagRule) (mark : α) :
    List (Problem α τ) :=
  match rule.need? with
  | some c => if declared.contains c then [] else [⟨.undeclaredTag rule.name c, mark, n.name⟩]
  | none => []

def useProblems (n : Node α τ) (declared : List String) : Use α τ → List (Problem α τ)
  | .positional _ => []
  | .unknown tag mark => [⟨.unknownTag n.named (Leaf.plain tag), mark, n.name⟩]
  | .flag rule mark => n.tagProblems declared rule mark
  | .valued rule mark value =>
    n.tagProblems declared rule mark ++
      if rule.name == ":comparator" then n.comparatorProblems declared value else []
  | .lacking rule mark type =>
    n.tagProblems declared rule mark ++ [⟨.tagValue rule.name type, mark, n.name⟩]

def innerProblems (n : Node α τ) (s : Signature) : List (Problem α τ) :=
  let count := n.inner.length
  if s.positional.contains .tests then if count == 0 then [n.problem (.noTests n.named)] else []
  else if s.positional.contains .test then
    if count == 1 then [] else [n.problem (.notOneTest n.named count)]
  else if count == 0 then [] else [n.problem (.nestedTests n.named)]

/-- The types of the arguments that stand between the tags: tests inside a test do not. -/
def expected (n : Node α τ) (s : Signature) : List ArgumentType :=
  if n.isTest then s.positional.filter (!·.isOfTests) else s.positional

def needed (n : Node α τ) (s : Signature) : Nat :=
  if n.isTest then s.needed - (s.positional.length - (n.expected s).length) else s.needed

variable [Inhabited α]

/-- Problems with the arguments between the tags. If some are missing, it is the first types that
have none. -/
def positionalProblems (n : Node α τ) (s : Signature) (found : List (Argument α τ)) :
    List (Problem α τ) :=
  let expected := n.expected s
  if found.length < n.needed s then [n.problem (.tooFew n.named (n.needed s) found.length)]
  else match found.drop expected.length with
    | a :: _ => [⟨.extra n.named, a.mark?.getD default, n.name⟩]
    | [] =>
      (found.zip (expected.drop (expected.length - found.length))).filterMap fun (a, type) =>
        if a.hasType type then none
        else some ⟨.wrongType n.named type, a.mark?.getD default, n.name⟩

def signatureProblems (n : Node α τ) (declared : List String) (s : Signature) :
    List (Problem α τ) :=
  let uses := Use.ofArguments s n.arguments
  let tags := (uses.filterMap Use.rule?).map (·.name)
  (if s.isTest == n.isTest then []
    else [n.problem (if s.isTest then .testAsCommand n.named else .commandAsTest n.named)]) ++
  (match s.need? with
    | some c => if declared.contains c then [] else [n.problem (.undeclared n.named c)]
    | none => []) ++
  uses.flatMap (n.useProblems declared) ++
  (s.tagGroups.filter fun group => !group.any tags.contains).map
    (fun group => n.problem (.tagGroup n.named group)) ++
  (if n.isTest then n.innerProblems s else []) ++
  n.positionalProblems s (uses.filterMap Use.positional?)

/-- Problems of a node without those of the tests inside it. -/
def problems (r : Registry) (declared : List String) (n : Node α τ) : List (Problem α τ) :=
  match r.leafLookup? n.name with
  | none => [n.problem (if n.isTest then .unknownTest n.named else .unknownCommand n.named)]
  | some s => n.signatureProblems declared s

end Node

variable [Leaf τ] [Inhabited α]

/-- Problems of a test and of the tests inside it. -/
def Test.problems (r : Registry) (declared : List String) (t : Test α τ) : List (Problem α τ) :=
  t.walk.flatMap fun t => (Node.ofTest t).problems r declared

def Head.problems (r : Registry) (declared : List String) (h : Head α τ) : List (Problem α τ) :=
  (Node.ofHead h).problems r declared ++ h.tests.flatMap (·.problems r declared)

/-! ## Scripts -/

/-- What stands before a command in its block: whether that is the top level, whether the command is
the first, whether another command than `require` came before, and the keyword of the previous
command. -/
structure Place where
  top : Bool
  first : Bool
  other : Bool
  previous : Option Keyword

namespace Place

def front (top : Bool) : Place := ⟨top, true, false, none⟩

def after (p : Place) (h : Head α τ) : Place :=
  ⟨p.top, false, p.other || h.keyword? != some .require, h.keyword?⟩

def problems (p : Place) (h : Head α τ) : List (Problem α τ) :=
  (if h.keyword? == some .require && (!p.top || p.other) then [⟨.lateRequire, h.mark, h.name⟩]
    else []) ++
  (if (h.keyword? == some .elsifCommand || h.keyword? == some .elseCommand) &&
      p.previous != some .ifCommand && p.previous != some .elsifCommand then
    [⟨.looseBranch (Leaf.plain h.name), h.mark, h.name⟩]
    else [])

/-- Whether a command is the one that the capabilities of the script belong to. -/
def holdsCapabilities (p : Place) (h : Head α τ) : Bool := p.top && p.first && h.isBareRequire

end Place

def declaredNames (arguments : List (Argument α τ)) : List τ :=
  arguments.flatMap Argument.stringValues

/-- Problems with names that a server does not offer, all about one node. -/
def unsupportedNames (r : Registry) (names : List String) (mark : α) (node : τ) :
    List (Problem α τ) :=
  (names.filter (!r.isSupported ·)).map fun name => ⟨.unsupported name, mark, node⟩

/-- Problems of a command wherever it stands, without its block. -/
def Head.ownProblems (r : Registry) (declared : List String) (h : Head α τ) : List (Problem α τ) :=
  (if h.keyword? == some .require then
    unsupportedNames r ((declaredNames h.arguments).map Leaf.plain) h.mark h.name else []) ++
  h.problems r declared

/-- Problems of a command at its place, without its block. -/
def Head.problemsAt (r : Registry) (declared : List String) (p : Place) (h : Head α τ) :
    List (Problem α τ) :=
  p.problems h ++ if p.holdsCapabilities h then [] else h.ownProblems r declared

mutual

/-- Problems of a command at its place, with its block. -/
def Command.problems (r : Registry) (declared : List String) (p : Place) :
    Command α τ → List (Problem α τ)
  | .simple h => h.problemsAt r declared p
  | .control h cs _ _ =>
    h.problemsAt r declared p ++ Command.problemsFrom r declared (.front false) cs

def Command.problemsFrom (r : Registry) (declared : List String) (p : Place) :
    List (Command α τ) → List (Problem α τ)
  | [] => []
  | c :: cs => c.problems r declared p ++ Command.problemsFrom r declared (p.after c.head) cs

end

/-- The heads of the `require` commands that lead others. -/
def leadingRequires (heads : List (Head α τ)) : List (Head α τ) :=
  heads.takeWhile (·.keyword? == some .require)

namespace Script

/-- The capabilities that a script declares, in lower case: its own and those of the `require`
commands that lead it. -/
def declared (s : Script α τ) : List String :=
  let leading := leadingRequires (s.commands.map Command.head)
  (s.capabilities ++ leading.flatMap fun h => declaredNames h.arguments).map
    fun name => Text.lower (Leaf.plain name)

/-- Problems with the capabilities of a script that a server does not offer. -/
def serverProblems (r : Registry) (s : Script α τ) : List (Problem α τ) :=
  unsupportedNames r (s.capabilities.map Leaf.plain) ((s.requireHead?.map Head.mark).getD default)
    (Leaf.ofText "require")

def problems (r : Registry) (s : Script α τ) : List (Problem α τ) :=
  s.serverProblems r ++ Command.problemsFrom r s.declared (.front true) s.commands

end Script

/-! ## Trees that came as data -/

def Use.fit : Use α Value → Fit
  | .unknown tag _ => tag.fitKey
  | .valued rule _ (.string value _ _) => if rule.name == ":comparator" then value.fitText else .ok ()
  | _ => .ok ()

def Node.fit (r : Registry) (n : Node α Value) : Fit := do
  n.name.fitName
  match r.leafLookup? n.name with
  | some s => (Use.ofArguments s n.arguments).forM Use.fit
  | none => .ok ()

/-- Whether names can be compared with those that a server offers. -/
def fitOffered (r : Registry) (names : List Value) : Fit :=
  if r.server.isSome then names.forM Value.fitText else .ok ()

/-- Whether a command can be checked wherever it stands, without its block. -/
def Head.fitOwn (r : Registry) (h : Head α Value) : Fit := do
  if h.keyword? == some .require then fitOffered r (declaredNames h.arguments) else .ok ()
  (Node.ofHead h).fit r
  h.tests.forM fun t => t.fitItems fun u => (Node.ofTest u).fit r

/-- Whether a command can be checked at its place, without its block. -/
def fitAt (r : Registry) (p : Place) (h : Head α Value) : Fit := do
  h.name.fitName
  if p.holdsCapabilities h then .ok () else h.fitOwn r

mutual

/-- Whether a command can be checked at its place, with its block. -/
def Command.fit (r : Registry) (p : Place) : Command α Value → Fit
  | .simple h => fitAt r p h
  | .control h cs _ _ => do
    fitAt r p h
    Command.fitFrom r (.front false) cs

def Command.fitFrom (r : Registry) (p : Place) : List (Command α Value) → Fit
  | [] => .ok ()
  | c :: cs => do
    c.fit r p
    Command.fitFrom r (p.after c.head) cs

end

/-- Whether the capabilities that a script declares can be told. -/
def fitDeclared (capabilities : List Value) (heads : List (Head α Value)) : Fit := do
  capabilities.forM Value.fitText
  let leading := leadingRequires heads
  leading.forM fun h => (declaredNames h.arguments).forM Value.fitText
  match heads.drop leading.length with
  | h :: _ => h.name.fitName
  | [] => .ok ()

def Script.dataProblems (r : Registry) (s : Script α Value) :
    Except Misfit (List (Problem α Value)) := do
  fitDeclared s.capabilities (s.commands.map Command.head)
  Command.fitFrom r (.front true) s.commands
  return s.problems r

end MailFilter
