import MailFilter.Text.Integer

/-!
# Words of a command line

Which switches there are, and what each word of a command line is: a switch, perhaps with a value
glued to it, something that looks like a switch, two dashes, or a plain word. A long switch may be
cut short as long as no other one starts like it. After two dashes all words are plain.
-/

namespace MailFilter.CommandLine

/-- What is asked for. -/
inductive Verb where
  | parse
  | tokens
  | format
  | lint
  deriving DecidableEq, Repr

namespace Verb

def all : List Verb := [parse, tokens, format, lint]

def text : Verb → String
  | parse => "parse"
  | tokens => "tokens"
  | format => "format"
  | lint => "lint"

def ofText? (s : String) : Option Verb := all.find? (·.text == s)

end Verb

/-- A switch. -/
inductive Switch where
  | help
  | version
  | config
  | debug
  | verbose
  | json
  | mode
  | inplace
  | check
  | server
  deriving DecidableEq, Repr

namespace Switch

def letter? : Switch → Option Char
  | help => some 'h'
  | verbose => some 'v'
  | mode => some 'm'
  | inplace => some 'i'
  | _ => none

def long : Switch → String
  | help => "--help"
  | version => "--version"
  | config => "--config"
  | debug => "--debug"
  | verbose => "--verbose"
  | json => "--json"
  | mode => "--mode"
  | inplace => "--inplace"
  | check => "--check"
  | server => "--server-capabilities"

def takesValue : Switch → Bool
  | config | mode | server => true
  | _ => false

def shown (s : Switch) : String :=
  match s.letter? with
  | some c => "-" ++ String.singleton c ++ "/" ++ s.long
  | none => s.long

def allOf : Option Verb → List Switch
  | none => [help, version, config, debug]
  | some .parse => [help, verbose, json]
  | some .tokens => [help, mode]
  | some .format => [help, inplace, check]
  | some .lint => [help, server]

def ofLetter? (switches : List Switch) (c : Char) : Option Switch :=
  switches.find? (·.letter? == some c)

def ofLong? (switches : List Switch) (cs : List Char) : Option Switch :=
  switches.find? (·.long.toList == cs)

end Switch

/-- What is glued to a switch: a text after an equals sign, or right after a letter. -/
structure Glued where
  equals : Bool
  text : List Char
  deriving DecidableEq, Repr

/-- What a word is. -/
inductive Role where
  | plain
  /-- Two dashes. -/
  | marker
  /-- A switch in its short or its long spelling. -/
  | switch (s : Switch) (isLong : Bool) (glued : Option Glued)
  /-- What looks like a switch. -/
  | stray
  deriving DecidableEq, Repr

/-- A word and what it is. -/
structure Word where
  text : String
  role : Role
  deriving DecidableEq, Repr

/-- A word that several switches start with. -/
structure Ambiguity where
  word : String
  switches : List Switch

/-- Whether a word is a negative number, which is no switch: digits, with a point before the last
of them or without. A line feed may follow. -/
def isNegativeNumber (cs : List Char) : Bool :=
  let isDigit (c : Char) : Bool := (Text.decimalDigit? c).isSome
  match cs with
  | '-' :: cs =>
    let cs := if cs.getLast? == some '\n' then cs.dropLast else cs
    let digits (cs : List Char) : Bool := !cs.isEmpty && cs.all isDigit
    digits cs || match cs.dropWhile isDigit with
      | '.' :: cs => digits cs
      | _ => false
  | _ => false

/-- The spelling before the first equals sign of a word, and what is glued by it. -/
def splitGlued (cs : List Char) : List Char × Option Glued :=
  match cs.dropWhile (· != '=') with
  | _ :: rest => (cs.takeWhile (· != '='), some ⟨true, rest⟩)
  | [] => (cs, none)

def roleOf (switches : List Switch) (word : String) : Except Ambiguity Role :=
  let unknown (cs : List Char) : Role :=
    if isNegativeNumber cs || cs.contains ' ' then .plain else .stray
  match word.toList with
  | '-' :: '-' :: cs =>
    let (spelling, glued) := splitGlued ('-' :: '-' :: cs)
    match Switch.ofLong? switches spelling with
    | some s => .ok (.switch s true glued)
    | none => match switches.filter fun s => spelling.isPrefixOf s.long.toList with
      | [] => .ok (unknown ('-' :: '-' :: cs))
      | [s] => .ok (.switch s true glued)
      | several => .error ⟨word, several⟩
  | '-' :: c :: cs =>
    match Switch.ofLetter? switches c, cs with
    | some s, [] => .ok (.switch s false none)
    | some s, '=' :: cs => .ok (.switch s false (some ⟨true, cs⟩))
    | some s, cs => .ok (.switch s false (some ⟨false, cs⟩))
    | none, cs => .ok (unknown ('-' :: c :: cs))
  | _ => .ok .plain

def words (switches : List Switch) : List String → Except Ambiguity (List Word)
  | [] => .ok []
  | text :: rest =>
    if text == "--" then .ok (⟨text, .marker⟩ :: rest.map (⟨·, .plain⟩))
    else do return ⟨text, ← roleOf switches text⟩ :: (← words switches rest)

end MailFilter.CommandLine
