import MailFilter.Registry
import MailFilter.Script.Tree
import MailFilter.Tokens

/-!
# From tokens to scripts

Reading goes over the tokens once. What has been read and is not finished yet is a `Reading.State`:
the blocks that are open, the commands of the innermost one, and how far the command or test at
hand has come. Comments wait for the next command, or for the end of the block.
-/

namespace MailFilter

/-- What a reader of scripts knows: the commands, and how deep blocks and tests may nest. -/
structure ReadOptions where
  registry : Registry
  limit : Value

/-- The nesting depth that is allowed where nothing else is said. -/
def defaultLimit : Value := .int 64

def ReadOptions.default : ReadOptions := ⟨.default, defaultLimit⟩

namespace Reading

/-- A test whose arguments are being read. -/
structure OpenTest where
  name : String
  arguments : List (Argument Pos)
  pos : Pos

def OpenTest.close (t : OpenTest) (tests : List (Test Pos)) : Test Pos :=
  .mk t.name t.arguments (tests.map .test) t.pos

/-- A list of tests in parentheses: the test it belongs to, the tests so far, and where it opens. -/
structure OpenList where
  parent : OpenTest
  tests : List (Test Pos)
  opening : Pos

/-- A test around the one that is being read: it takes that test alone, or a list of tests. -/
inductive Holder where
  | single (parent : OpenTest)
  | list (list : OpenList)

/-- A block around the one that is being read: the command it belongs to, where it opens, and the
commands that stand before that command. -/
structure Frame where
  head : Head Pos
  opening : Pos
  before : List Command

/-- How far the command at hand has come. -/
inductive Phase where
  /-- A command or the end of the block comes next. -/
  | statement
  /-- The arguments of a command are being read. -/
  | arguments (head : Head Pos)
  /-- The arguments of a test are being read. -/
  | testArguments (head : Head Pos) (holders : List Holder) (test : OpenTest)
  /-- A test of a list comes next. -/
  | testName (head : Head Pos) (holders : List Holder) (list : OpenList)
  /-- A test of a list is finished. -/
  | testEnd (head : Head Pos) (holders : List Holder) (list : OpenList)
  /-- The end of the command comes next. -/
  | ended (head : Head Pos)

/-- What has been read and is not finished: comments that wait for their command, the open blocks,
the innermost first, the commands of the innermost block, and the command at hand. -/
structure State where
  pending : List Comment
  frames : List Frame
  commands : List Command
  phase : Phase

def State.start : State := ⟨[], [], [], .statement⟩

/-- A number token as a value and a unit. Its last character may be the unit, in either case. -/
def number (text : String) : Except Text.IntegerFault (Nat × NumberUnit) :=
  let word := text.toList
  let unit? := (word.getLast?.map Char.toUpper).bind fun c =>
    NumberUnit.ofText? (String.singleton c)
  let digits := if unit?.isSome then word.dropLast else word
  (Text.natOfDigits (digits.map (·.toNat - 0x30))).map (·, unit?.getD .one)

def argument? (t : Token) : Option (Except ReadError (Argument Pos)) :=
  match t.item with
  | .quoted value => some (.ok (.string value .quoted t.pos))
  | .multiline value => some (.ok (.string value .multiline t.pos))
  | .strings values => some (.ok (.strings values t.pos))
  | .number text =>
    some (match number text with
      | .ok (n, unit) => .ok (.number n unit t.pos)
      | .error fault => .error (.number fault))
  | .tag name => some (.ok (.tag (Text.lower name) t.pos))
  | _ => none

/-- Refuses a depth beyond the limit, which must be a number. -/
def checkDepth (o : ReadOptions) (depth : Nat) (p : Pos) : Except ReadError Unit :=
  match o.limit.compareInt? depth with
  | none => .error .limit
  | some (some .lt) => .error (.tooDeep ⟨o.limit, .int p.line, .int p.column⟩)
  | some _ => .ok ()

/-- How deep a test nests inside open blocks and other tests. -/
def testDepth (frames : List Frame) (holders : List Holder) : Nat :=
  frames.length + 1 + holders.length

def openTest (o : ReadOptions) (s : State) (head : Head Pos) (holders : List Holder)
    (name : String) (p : Pos) : Except ReadError State := do
  checkDepth o (testDepth s.frames holders) p
  return { s with phase := .testArguments head holders ⟨Keyword.normalName name, [], p⟩ }

/-- Puts a finished test where it belongs: tests that take one test alone are finished with it, up
to a list of tests or to the command. -/
def closeTest (head : Head Pos) (test : Test Pos) : List Holder → Phase
  | [] => .ended { head with arguments := head.arguments ++ [.test test] }
  | .single parent :: holders => closeTest head (parent.close [test]) holders
  | .list l :: holders => .testEnd head holders { l with tests := l.tests ++ [test] }

def push (s : State) (c : Command) : State :=
  { s with commands := s.commands ++ [c], phase := .statement }

/-- A token where a command or the end of a block may stand. -/
def stepStatement (s : State) (t : Token) : Except ReadError State :=
  match t.item with
  | .identifier name =>
    .ok { s with
      pending := []
      phase := .arguments ⟨Keyword.normalName name, [], s.pending, t.pos⟩ }
  | .closeBrace =>
    match s.frames with
    | [] => .error (.at .strayBrace t.pos)
    | f :: frames =>
      .ok ⟨[], frames, f.before ++ [.control f.head s.commands s.pending f.opening], .statement⟩
  | found => .error (.at (.noCommand found) t.pos)

def stepEnd (o : ReadOptions) (s : State) (head : Head Pos) (t : Token) : Except ReadError State :=
  match t.item with
  | .semicolon =>
    if o.registry.isControl? head.name == some true then
      .error (.at (.blockMissing head.name) t.pos)
    else .ok (push s (.simple head))
  | .openBrace =>
    if o.registry.isControl? head.name == some false then
      .error (.at (.blockRefused head.name) t.pos)
    else do
      checkDepth o (s.frames.length + 1) t.pos
      return ⟨s.pending, ⟨head, t.pos, s.commands⟩ :: s.frames, [], .statement⟩
  | found => .error (.at (.noEnd head.name found) t.pos)

def stepTestEnd (s : State) (head : Head Pos) (holders : List Holder) (list : OpenList)
    (t : Token) : Except ReadError State :=
  match t.item with
  | .comma => .ok { s with phase := .testName head holders list }
  | .closeParen => .ok { s with phase := closeTest head (list.parent.close list.tests) holders }
  | found => .error (.at (.noSeparator found) t.pos)

/-- A token in a phase that no test is being read in, or after the end of one. -/
def stepClosed (o : ReadOptions) (s : State) (t : Token) : Phase → Except ReadError State
  | .testEnd head holders list => stepTestEnd s head holders list t
  | .ended head => stepEnd o s head t
  | phase => .ok { s with phase }

def step (o : ReadOptions) (s : State) (t : Token) : Except ReadError State :=
  match t.item with
  | .comment text => .ok { s with pending := s.pending ++ [⟨text, t.pos⟩] }
  | _ =>
    match s.phase with
    | .statement => stepStatement s t
    | .arguments head =>
      match argument? t with
      | some a => do return { s with phase := .arguments { head with arguments := head.arguments ++ [← a] } }
      | none =>
        match t.item with
        | .identifier name => openTest o s head [] name t.pos
        | .openParen => .error (.at (.looseTests head.name) t.pos)
        | _ => stepEnd o s head t
    | .testArguments head holders test =>
      match argument? t with
      | some a => do
        return { s with
          phase := .testArguments head holders { test with arguments := test.arguments ++ [← a] } }
      | none =>
        match t.item with
        | .identifier name => openTest o s head (.single test :: holders) name t.pos
        | .openParen => .ok { s with phase := .testName head holders ⟨test, [], t.pos⟩ }
        | _ => stepClosed o s t (closeTest head (test.close []) holders)
    | .testName head holders list =>
      match t.item with
      | .identifier name => openTest o s head (.list list :: holders) name t.pos
      | .closeParen =>
        if list.tests.isEmpty then .error (.at .noTests list.opening)
        else .error (.at .noTest t.pos)
      | _ => .error (.at .noTest t.pos)
    | phase => stepClosed o s t phase

/-- The blocks of a script that ended, or where it is cut. The place of the end is given if there is
a token for it. -/
def finish (s : State) (stop : Option Pos) : Except ReadError Block :=
  let cut (head : Head Pos) : Except ReadError Block :=
    .error (.at (.commandCut head.name) (stop.getD head.mark))
  let closed : Phase → Except ReadError Block
    | .testEnd _ _ list => .error (.at .unclosedTests list.opening)
    | .ended head | .arguments head | .testArguments head _ _ | .testName head _ _ => cut head
    | .statement =>
      match s.frames with
      | [] => .ok ⟨s.commands, s.pending, .nowhere⟩
      | f :: _ => .error (.at .unclosedBlock f.opening)
  match s.phase with
  | .testArguments head holders test => closed (closeTest head (test.close []) holders)
  | .testName .. => .error (.at .noTest (stop.getD .nowhere))
  | phase => closed phase

def run (o : ReadOptions) (s : State) : List Token → Except ReadError Block
  | [] => finish s none
  | t :: ts =>
    if t.item == .endOfInput then finish s (some t.pos)
    else do run o (← step o s t) ts

/-- The names that a well-shaped `require` declares. -/
def declared? : List (Argument Pos) → Option (List String)
  | [.strings values _] => some values
  | [.string value _ _] => some [value]
  | _ => none

/-- A script of a block: the list of a leading `require` goes to the script, every name once. -/
def assemble (b : Block) (filename : String) : Script :=
  let plain : Script := ⟨b, [], filename, ⟨1, 1, 0⟩⟩
  match b.commands with
  | c :: rest =>
    if c.head.keyword? == some .require then
      match declared? c.head.arguments with
      | some names =>
        let bare := Command.ofParts { c.head with arguments := [] } c.block?
        { plain with block := { b with commands := bare :: rest }, capabilities := names.eraseDups }
      | none => plain
    else plain
  | [] => plain

end Reading

namespace Script

def ofTokens (tokens : List Token) (filename : String) (o : ReadOptions) :
    Except ReadError Script := do
  return Reading.assemble (← Reading.run o .start tokens) filename

/-- The script that a text is, with offsets in the given charset. -/
def ofTextIn (charset source filename : String) (o : ReadOptions) : Except ReadError Script := do
  ofTokens (← (Tokens.ofText source charset).complete) filename o

def ofText (source filename : String) (o : ReadOptions) : Except ReadError Script :=
  ofTextIn "utf-8" source filename o

/-- The text of bytes in the charset of a name. No bytes are no text in every charset. -/
def decode (charset : String) (bytes : Text.Bytes) : Except ReadError String :=
  match Text.Charset.ofName? charset with
  | some c => match c.decode bytes with
    | .ok cs => .ok (String.ofList cs)
    | .error e => .error (.bytes e)
  | none => if bytes.isEmpty then .ok "" else .error (.charset charset)

/-- The script that bytes are. Bytes that are no text are a fault of the script. -/
def ofBytes (charset : String) (bytes : Text.Bytes) (filename : String) (o : ReadOptions) :
    Except ReadError Script :=
  match decode charset bytes with
  | .ok source => ofTextIn charset source filename o
  | .error (.bytes e) => .error (.at (.bytes charset e.reason) ⟨0, 0, e.start⟩)
  | .error e => .error e

end Script

end MailFilter
