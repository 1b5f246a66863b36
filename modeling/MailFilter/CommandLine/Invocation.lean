import MailFilter.CommandLine.Usage
import MailFilter.Files
import MailFilter.Settings
import MailFilter.Statement
import MailFilter.Text.Integer

/-!
# Invocations

What a command line asks for. Its words are read one after the other; a switch that takes a value
waits for the next word. Words before the verb and words after it are read alike, apart from the
switches that are known and from what plain words are: the first one before the verb is the verb,
and the first one after it is the file.
-/

namespace MailFilter.CommandLine

/-- What the switches of a command line say. -/
structure Choices where
  config : Option Path := none
  debug : Bool := false
  verbose : Bool := false
  json : Bool := false
  mode : Statement.Mode := .all
  inplace : Bool := false
  check : Bool := false
  server : Option (List String) := none

/-- A switch with the value that belongs to it. -/
structure Use where
  switch : Switch
  value : String := ""

/-- Choices after one more switch, which may be the last thing to be done. -/
def Choices.after (verb : Option Verb) (c : Choices) (use : Use) : Except Stop Choices :=
  match use.switch with
  | .help => .error (.help verb)
  | .version => .error .version
  | .config => .ok { c with config := some (.ofText use.value) }
  | .debug => .ok { c with debug := true }
  | .verbose => .ok { c with verbose := true }
  | .json => .ok { c with json := true }
  | .inplace => .ok { c with inplace := true }
  | .check => .ok { c with check := true }
  | .server => .ok { c with server := some (Settings.splitNames use.value) }
  | .mode => match Text.readInteger use.value with
    | .error _ => .error (.refused verb (.notInteger .mode use.value))
    | .ok n => match Statement.Mode.ofValue? (.int n) with
      | some mode => .ok { c with mode }
      | none => .error (.refused verb (.badMode n))

/-- The switches that one word is: those that are complete, one that waits for a value, and what
is left over. -/
structure Cluster where
  uses : List Use := []
  waiting : Option Switch := none
  left : Option String := none

/-- A cluster after one more switch without a value at its front. -/
def Cluster.cons (s : Switch) (c : Cluster) : Cluster := { c with uses := ⟨s, ""⟩ :: c.uses }

/-- The switches of a short switch and the letters after it: letters are switches of their own
until one of them takes a value, which is all that follows. -/
def cluster (switches : List Switch) (s : Switch) (equals : Bool) :
    List Char → Except UsageFault Cluster
  | [] =>
    if s.takesValue then .ok { uses := [⟨s, ""⟩] } else .error (.valueIgnored s "")
  | c :: cs =>
    if s.takesValue then .ok { uses := [⟨s, String.ofList (c :: cs)⟩] }
    else if equals || c == '-' then .error (.valueIgnored s (String.ofList (c :: cs)))
    else match Switch.ofLetter? switches c, cs with
      | none, cs => .ok { uses := [⟨s, ""⟩], left := some (String.ofList ('-' :: c :: cs)) }
      | some t, [] =>
        .ok (if t.takesValue then { uses := [⟨s, ""⟩], waiting := some t }
          else { uses := [⟨s, ""⟩, ⟨t, ""⟩] })
      | some t, '=' :: cs => (cluster switches t true cs).map (.cons s)
      | some t, cs => (cluster switches t false cs).map (.cons s)

def clusterOf (switches : List Switch) (s : Switch) (isLong : Bool) :
    Option Glued → Except UsageFault Cluster
  | none => .ok (if s.takesValue then { waiting := some s } else { uses := [⟨s, ""⟩] })
  | some glued =>
    if isLong then
      let value := String.ofList glued.text
      if s.takesValue then .ok { uses := [⟨s, value⟩] } else .error (.valueIgnored s value)
    else cluster switches s glued.equals glued.text

/-- How far words have been read: the choices, the plain words that count (the verb with all that
follows, or the file), the words that mean nothing, switches up to one that waits for a value,
whether two dashes wait for a plain word, and whether the last word was the file. -/
structure Progress where
  choices : Choices := {}
  operands : List String := []
  strays : List String := []
  waiting : Option (List Use × Switch) := none
  marked : Bool := false
  justTaken : Bool := false

namespace Progress

def use (verb : Option Verb) (p : Progress) (uses : List Use) : Except Stop Progress := do
  return { p with choices := ← uses.foldlM (Choices.after verb) p.choices }

def stray (p : Progress) (text : String) : Progress := { p with strays := p.strays ++ [text] }

def operand (verb : Option Verb) (p : Progress) (text : String) : Progress :=
  match verb, p.operands with
  | none, operands =>
    { p with
      operands := operands ++ (if p.marked then ["--", text] else [text])
      marked := false }
  | some _, [] => { p with operands := [text], justTaken := !p.marked, marked := false }
  | some _, _ => p.stray text

/-- Adds two dashes, which mean nothing right after the file. -/
def marker (p : Progress) (justTaken : Bool) : Progress :=
  if justTaken then p
  else if p.operands.isEmpty then { p with marked := true }
  else p.stray "--"

def step (verb : Option Verb) (p : Progress) (w : Word) : Except Stop Progress :=
  let taken := p.justTaken
  let p := { p with justTaken := false }
  match p.waiting, w.role with
  | some (uses, s), .plain => use verb { p with waiting := none } (uses ++ [⟨s, w.text⟩])
  | some (_, s), _ => .error (.refused verb (.valueMissing s))
  | none, role =>
    if verb.isNone && !p.operands.isEmpty then .ok (p.operand verb w.text)
    else match role with
      | .plain => .ok (p.operand verb w.text)
      | .marker => .ok (p.marker taken)
      | .stray => .ok (p.stray w.text)
      | .switch s isLong glued =>
        match clusterOf (Switch.allOf verb) s isLong glued with
        | .error fault => .error (.refused verb fault)
        | .ok c =>
          let p := match c.left with
            | some text => p.stray text
            | none => p
          match c.waiting with
          | some s => .ok { p with waiting := some (c.uses, s) }
          | none => p.use verb c.uses

def read (verb : Option Verb) (choices : Choices) (texts : List String) : Except Stop Progress := do
  let ws ← (words (Switch.allOf verb) texts).mapError fun a => .refused verb (.ambiguous a)
  let p ← ws.foldlM (step verb) { choices }
  match p.waiting with
  | some (_, s) => throw (.refused verb (.valueMissing s))
  | none => return if p.marked then p.stray "--" else p

end Progress

/-- What is to be done with a file. -/
inductive Task where
  | parse (verbose json : Bool)
  | tokens (mode : Statement.Mode)
  | format (inplace check : Bool)
  | lint (server : Option (List String))

def Verb.task (c : Choices) : Verb → Task
  | parse => .parse c.verbose c.json
  | tokens => .tokens c.mode
  | format => .format c.inplace c.check
  | lint => .lint c.server

/-- What a command line asks for: where settings are, whether to tell what is done, and what to do
with a file. -/
structure Invocation where
  config : Option Path
  debug : Bool
  task : Option (Task × String)

/-- Reads a command line. Words that mean nothing are a fault once all else is right. -/
def Invocation.ofWords (texts : List String) : Except Stop Invocation := do
  let p ← Progress.read none {} texts
  match p.operands with
  | [] =>
    if !p.strays.isEmpty then throw (.refused none (.unrecognized p.strays))
    return ⟨p.choices.config, p.choices.debug, none⟩
  | name :: rest =>
    match Verb.ofText? name with
    | none => throw (.refused none (.badVerb name))
    | some verb =>
      let q ← Progress.read (some verb) {} rest
      match q.operands with
      | [] => throw (.refused (some verb) .fileMissing)
      | file :: _ =>
        let strays := p.strays ++ q.strays
        if !strays.isEmpty then throw (.refused none (.unrecognized strays))
        return ⟨p.choices.config, p.choices.debug, some (verb.task q.choices, file)⟩

end MailFilter.CommandLine
