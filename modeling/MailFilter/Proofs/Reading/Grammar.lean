import MailFilter.Proofs.Script.Number

/-!
# The grammar of scripts

    script   = command* [end of input]
    command  = phrase [test] (semicolon | "{" command* "}")
    test     = phrase [test | "(" test ("," test)* ")"]
    phrase   = identifier argument*
    argument = quoted string | multiline string | list of strings | number | tag

The registry tells of some names that their commands have a block, and of others that they have none.
A derivation is a tree of tokens with their places, so it is a derivation of one list of tokens, and
one script stands for it.
-/

namespace MailFilter.Grammar

/-! ## Derivations -/

/-- An argument: a single token. -/
inductive ArgumentTree where
  | quoted (value : String) (pos : Pos)
  | multiline (value : String) (pos : Pos)
  | strings (values : List String) (pos : Pos)
  | number (text : String) (pos : Pos)
  | tag (name : String) (pos : Pos)

/-- An identifier and the arguments after it. -/
structure Phrase where
  name : String
  pos : Pos
  arguments : List ArgumentTree

mutual

inductive TestTree where
  | plain (phrase : Phrase)
  /-- A test with another one directly after it. -/
  | single (phrase : Phrase) (test : TestTree)
  /-- A test with tests in parentheses after it. -/
  | list (phrase : Phrase) (opening : Pos) (tests : TestsTree) (closing : Pos)

/-- Tests with commas between them, one at least. -/
inductive TestsTree where
  | last (test : TestTree)
  | cons (test : TestTree) (comma : Pos) (rest : TestsTree)

end

/-- A command up to its end. -/
structure HeadTree where
  phrase : Phrase
  test? : Option TestTree

inductive CommandTree (r : Registry) where
  | simple (head : HeadTree) (semicolon : Pos) (h : r.isControl? head.phrase.name ≠ some true)
  | control (head : HeadTree) (opening : Pos) (commands : List (CommandTree r)) (closing : Pos)
      (h : r.isControl? head.phrase.name ≠ some false)

structure ScriptTree (r : Registry) where
  commands : List (CommandTree r)
  stop : Option Pos

/-! ## Tokens -/

def ArgumentTree.token : ArgumentTree → Token
  | quoted value p => ⟨.quoted value, p⟩
  | multiline value p => ⟨.multiline value, p⟩
  | strings values p => ⟨.strings values, p⟩
  | number text p => ⟨.number text, p⟩
  | tag name p => ⟨.tag name, p⟩

def Phrase.tokens (phrase : Phrase) : List Token :=
  ⟨.identifier phrase.name, phrase.pos⟩ :: phrase.arguments.map ArgumentTree.token

mutual

def TestTree.tokens : TestTree → List Token
  | .plain phrase => phrase.tokens
  | .single phrase test => phrase.tokens ++ test.tokens
  | .list phrase opening tests closing =>
    phrase.tokens ++ ⟨.openParen, opening⟩ :: (tests.tokens ++ [⟨.closeParen, closing⟩])

def TestsTree.tokens : TestsTree → List Token
  | .last test => test.tokens
  | .cons test comma rest => test.tokens ++ ⟨.comma, comma⟩ :: rest.tokens

end

def HeadTree.tokens (head : HeadTree) : List Token :=
  head.phrase.tokens ++ head.test?.toList.flatMap TestTree.tokens

variable {r : Registry}

mutual

def CommandTree.tokens : CommandTree r → List Token
  | simple head semicolon _ => head.tokens ++ [⟨.semicolon, semicolon⟩]
  | control head opening commands closing _ =>
    head.tokens ++ ⟨.openBrace, opening⟩ :: (tokensAll commands ++ [⟨.closeBrace, closing⟩])

def CommandTree.tokensAll : List (CommandTree r) → List Token
  | [] => []
  | c :: cs => c.tokens ++ tokensAll cs

end

def ScriptTree.tokens (d : ScriptTree r) : List Token :=
  CommandTree.tokensAll d.commands ++ d.stop.toList.map (⟨.endOfInput, ·⟩)

/-- A derivation of a list of tokens leaves its comments out. -/
def ScriptTree.Derives (d : ScriptTree r) (ts : List Token) : Prop :=
  d.tokens = ts.filter (!·.item.isComment)

/-! ## Scripts -/

def ArgumentTree.argument : ArgumentTree → Argument Pos
  | quoted value p => .string value .quoted p
  | multiline value p => .string value .multiline p
  | strings values p => .strings values p
  | number text p => .number (Reading.count text).1 (Reading.count text).2 p
  | tag name p => .tag (Text.lower name) p

def Phrase.openTest (phrase : Phrase) : Reading.OpenTest :=
  ⟨Keyword.normalName phrase.name, phrase.arguments.map ArgumentTree.argument, phrase.pos⟩

mutual

def TestTree.test : TestTree → Test Pos
  | .plain phrase => phrase.openTest.close []
  | .single phrase test => phrase.openTest.close [test.test]
  | .list phrase _ tests _ => phrase.openTest.close tests.tests

def TestsTree.tests : TestsTree → List (Test Pos)
  | .last test => [test.test]
  | .cons test _ rest => test.test :: rest.tests

end

def Phrase.head (phrase : Phrase) : Head :=
  ⟨Keyword.normalName phrase.name, phrase.arguments.map ArgumentTree.argument, [], phrase.pos⟩

def HeadTree.head (head : HeadTree) : Head :=
  { head.phrase.head with
    arguments := head.phrase.head.arguments ++ head.test?.toList.map (.test ·.test) }

/-- The names that a `require` declares, which has one string or one list of strings for them. -/
def HeadTree.declared? (head : HeadTree) : Option (List String) :=
  if Keyword.ofName? head.phrase.name = some .require then
    match head.phrase.arguments, head.test? with
    | [.quoted value _], none | [.multiline value _], none => some [value]
    | [.strings values _], none => some values
    | _, _ => none
  else none

mutual

def CommandTree.command : CommandTree r → Command
  | simple head _ _ => .simple head.head
  | control head opening commands _ _ => .control head.head (commandAll commands) [] opening

def CommandTree.commandAll : List (CommandTree r) → List Command
  | [] => []
  | c :: cs => c.command :: commandAll cs

end

def CommandTree.head : CommandTree r → HeadTree
  | simple head _ _ | control head _ _ _ _ => head

def CommandTree.bare : CommandTree r → Command
  | simple head _ _ => .simple { head.head with arguments := [] }
  | control head opening commands _ _ =>
    .control { head.head with arguments := [] } (commandAll commands) [] opening

/-- The script of a derivation.  What a leading `require` declares goes to the script, each name once. -/
def ScriptTree.script (d : ScriptTree r) (filename : String) : Script :=
  let plain : Script := ⟨⟨CommandTree.commandAll d.commands, [], .nowhere⟩, [], filename, ⟨1, 1, 0⟩⟩
  match d.commands with
  | c :: cs =>
    match c.head.declared? with
    | some names =>
      { plain with
        block := ⟨c.bare :: CommandTree.commandAll cs, [], .nowhere⟩
        capabilities := names.eraseDups }
    | none => plain
  | [] => plain

end MailFilter.Grammar
