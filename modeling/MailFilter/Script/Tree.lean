import MailFilter.Keyword
import MailFilter.Position
import MailFilter.Text.Blank
import MailFilter.Value.Basic

/-!
# Scripts as trees

A script is a block of commands. A command has arguments, the last of which may be a test, and
perhaps a block; a test has arguments and nested tests. Arguments and tests carry a mark, which is
their place in a script that was read. What stands for text in a tree is a leaf: text in a script
that was read, any data value in a tree that came as data.
-/

namespace MailFilter

/-- A comment. It stands above a command or at the end of a block. -/
structure Comment (τ : Type := String) where
  text : τ
  pos : Pos
  deriving DecidableEq, Repr, Inhabited

/-- How a string was written; it means the same either way. -/
inductive StringForm where
  | quoted
  | multiline
  deriving DecidableEq, Repr

def StringForm.text : StringForm → String
  | quoted => "quoted"
  | multiline => "multiline"

/-- What a number counts. -/
inductive NumberUnit where
  | one
  | kilo
  | mega
  | giga
  deriving DecidableEq, Repr

namespace NumberUnit

def text : NumberUnit → String
  | one => ""
  | kilo => "K"
  | mega => "M"
  | giga => "G"

def octets : NumberUnit → Nat
  | one => 1
  | kilo => 1024
  | mega => 1024 * 1024
  | giga => 1024 * 1024 * 1024

/-- The unit that a text writes in upper case. -/
def ofText? (text : String) : Option NumberUnit :=
  [one, kilo, mega, giga].find? (·.text == text)

end NumberUnit

mutual

/-- An argument of a command or a test, with its mark. -/
inductive Argument (α : Type) (τ : Type := String) where
  | string (value : τ) (form : StringForm) (mark : α)
  | strings (values : List τ) (mark : α)
  | number (value : Int) (unit : NumberUnit) (mark : α)
  | tag (name : τ) (mark : α)
  | test (test : Test α τ)
  /-- Something else that was put in the place of an argument, as messages show it. -/
  | foreign (shown : String)

/-- A test: its name, its arguments, the tests inside it, and its mark. In a tree that came as data
other arguments may stand among the tests. -/
inductive Test (α : Type) (τ : Type := String) where
  | mk (name : τ) (arguments tests : List (Argument α τ)) (mark : α)

end

namespace Argument

def test? : Argument α τ → Option (Test α τ)
  | test t => some t
  | _ => none

def isTag : Argument α τ → Bool
  | tag .. => true
  | _ => false

def stringValues : Argument α τ → List τ
  | string value _ _ => [value]
  | strings values _ => values
  | _ => []

end Argument

namespace Test

def name : Test α τ → τ
  | mk name _ _ _ => name

def arguments : Test α τ → List (Argument α τ)
  | mk _ arguments _ _ => arguments

def inner : Test α τ → List (Argument α τ)
  | mk _ _ tests _ => tests

def tests (t : Test α τ) : List (Test α τ) := t.inner.filterMap Argument.test?

def mark : Test α τ → α
  | mk _ _ _ mark => mark

def keyword? [Leaf τ] (t : Test α τ) : Option Keyword := (Leaf.text? t.name).bind Keyword.ofName?

mutual

/-- A test and what is inside it, each before what is inside that. -/
def items : Test α τ → List (Argument α τ)
  | mk name arguments tests mark => .test (mk name arguments tests mark) :: itemsOf tests

/-- What stands inside a test, and what is inside that, in order. -/
def itemsOf : List (Argument α τ) → List (Argument α τ)
  | [] => []
  | .test t :: as => t.items ++ itemsOf as
  | a :: as => a :: itemsOf as

end

/-- A test and the tests inside it, each before those inside it. -/
def walk (t : Test α τ) : List (Test α τ) := t.items.filterMap Argument.test?

mutual

def height : Test α τ → Nat
  | mk _ _ tests _ => 1 + heightOf tests

/-- How many levels the tests among arguments have at most. -/
def heightOf : List (Argument α τ) → Nat
  | [] => 0
  | .test t :: as => max t.height (heightOf as)
  | _ :: as => heightOf as

end

end Test

namespace Argument

def mark? : Argument α τ → Option α
  | string _ _ m | strings _ m | number _ _ m | tag _ m => some m
  | test t => some t.mark
  | foreign _ => none

mutual

def map (f : α → β) (g : τ → σ) : Argument α τ → Argument β σ
  | string value form m => .string (g value) form (f m)
  | strings values m => .strings (values.map g) (f m)
  | number value unit m => .number value unit (f m)
  | tag name m => .tag (g name) (f m)
  | test t => .test (mapTest f g t)
  | foreign shown => .foreign shown

def mapTest (f : α → β) (g : τ → σ) : Test α τ → Test β σ
  | .mk name arguments tests m => .mk (g name) (mapAll f g arguments) (mapAll f g tests) (f m)

def mapAll (f : α → β) (g : τ → σ) : List (Argument α τ) → List (Argument β σ)
  | [] => []
  | a :: as => a.map f g :: mapAll f g as

end

end Argument

/-- A command without its block: its name, its arguments, the comments above it, and its mark. -/
structure Head (α : Type := Pos) (τ : Type := String) where
  name : τ
  arguments : List (Argument α τ)
  comments : List (Comment τ)
  mark : α

def Comment.map (g : τ → σ) (c : Comment τ) : Comment σ := ⟨g c.text, c.pos⟩

namespace Head

def keyword? [Leaf τ] (h : Head α τ) : Option Keyword := (Leaf.text? h.name).bind Keyword.ofName?

def test? (h : Head α τ) : Option (Test α τ) := h.arguments.findSome? Argument.test?

def tests (h : Head α τ) : List (Test α τ) := h.arguments.filterMap Argument.test?

/-- Whether the command is a `require` whose list stands elsewhere. -/
def isBareRequire [Leaf τ] (h : Head α τ) : Bool := h.keyword? == some .require && h.arguments.isEmpty

def map (f : α → β) (g : τ → σ) (h : Head α τ) : Head β σ :=
  ⟨g h.name, Argument.mapAll f g h.arguments, h.comments.map (·.map g), f h.mark⟩

end Head

/-- A command, which ends in a semicolon or in a block. -/
inductive Command (α : Type := Pos) (τ : Type := String) where
  | simple (head : Head α τ)
  | control (head : Head α τ) (commands : List (Command α τ)) (trailing : List (Comment τ))
      (opening : Pos)

/-- A block: its commands, the comments at its end, and where it opens. -/
structure Block (α : Type := Pos) (τ : Type := String) where
  commands : List (Command α τ)
  trailing : List (Comment τ)
  pos : Pos

namespace Command

def head : Command α τ → Head α τ
  | simple head => head
  | control head _ _ _ => head

def block? : Command α τ → Option (Block α τ)
  | simple _ => none
  | control _ commands trailing opening => some ⟨commands, trailing, opening⟩

/-- The command with a given head and perhaps a block. -/
def ofParts (head : Head α τ) : Option (Block α τ) → Command α τ
  | none => simple head
  | some b => control head b.commands b.trailing b.pos

mutual

/-- A command and the commands inside it, each before those inside it. -/
def walk : Command α τ → List (Command α τ)
  | simple head => [simple head]
  | control head commands trailing opening =>
    control head commands trailing opening :: walkAll commands

def walkAll : List (Command α τ) → List (Command α τ)
  | [] => []
  | c :: cs => c.walk ++ walkAll cs

end

mutual

def height : Command α τ → Nat
  | simple head => Test.heightOf head.arguments
  | control head commands _ _ => max (Test.heightOf head.arguments) (1 + heightAll commands)

def heightAll : List (Command α τ) → Nat
  | [] => 0
  | c :: cs => max c.height (heightAll cs)

end

mutual

def map (f : α → β) (g : τ → σ) : Command α τ → Command β σ
  | simple head => .simple (head.map f g)
  | control head commands trailing opening =>
    .control (head.map f g) (mapAll f g commands) (trailing.map (·.map g)) opening

def mapAll (f : α → β) (g : τ → σ) : List (Command α τ) → List (Command β σ)
  | [] => []
  | c :: cs => c.map f g :: mapAll f g cs

end

end Command

def Block.map (f : α → β) (g : τ → σ) (b : Block α τ) : Block β σ :=
  ⟨Command.mapAll f g b.commands, b.trailing.map (·.map g), b.pos⟩

/-- A script: its commands and the capabilities that its leading `require` declares, which that
command does not hold itself. -/
structure Script (α : Type := Pos) (τ : Type := String) where
  block : Block α τ
  capabilities : List τ
  filename : τ
  pos : Pos

namespace Script

def map (f : α → β) (g : τ → σ) (s : Script α τ) : Script β σ :=
  ⟨s.block.map f g, s.capabilities.map g, g s.filename, s.pos⟩

def commands (s : Script α τ) : List (Command α τ) := s.block.commands

def walk (s : Script α τ) : List (Command α τ) := Command.walkAll s.commands

/-- The `require` that the capabilities belong to. -/
def requireHead? [Leaf τ] (s : Script α τ) : Option (Head α τ) :=
  (s.commands.head?.map Command.head).filter Head.isBareRequire

/-- The commands of a name, in any letter case. -/
def named [Leaf τ] (s : Script α τ) (name : String) : List (Command α τ) :=
  s.walk.filter fun c => (Leaf.text? c.head.name).map Text.lower == some (Text.lower name)

end Script

/-! ## Names of rules -/

/-- The name in a comment that names a rule: `rule:[name]` between blanks. -/
def ruleName? (comment : String) : Option String := do
  let body := Text.trim comment.toList
  let rest ← if "rule:".toList.isPrefixOf body then some (body.drop 5) else none
  match rest.dropWhile Text.isBlank with
  | '[' :: inner =>
    if inner.getLast? == some ']' && !inner.dropLast.contains '\n' then
      some (String.ofList inner.dropLast)
    else none
  | _ => none

def Comment.ruleName? [Leaf τ] (c : Comment τ) : Option String :=
  (Leaf.text? c.text).bind MailFilter.ruleName?

/-- The name of the rule that a command is: the last one among its comments. -/
def Head.ruleName? [Leaf τ] (h : Head α τ) : Option String :=
  h.comments.reverse.findSome? Comment.ruleName?

/-! ## In messages -/

def Test.shown [Leaf τ] (t : Test α τ) : String :=
  "Test(" ++ Leaf.plain t.name ++ ", " ++ toString t.arguments.length ++ " args, " ++
    toString t.inner.length ++ " tests)"

def Argument.shown [Leaf τ] : Argument α τ → String
  | .string value _ _ => "String(" ++ Leaf.shown value ++ ")"
  | .strings values _ => "StringList([" ++ ", ".intercalate (values.map Leaf.shown) ++ "])"
  | .number value unit _ => "Number(" ++ toString value ++ unit.text ++ ")"
  | .tag name _ => "Tag(" ++ Leaf.plain name ++ ")"
  | .test t => t.shown
  | .foreign shown => shown

/-- A command as messages show it, given the number of commands in its block. -/
def Head.shown [Leaf τ] (h : Head α τ) (nested : Option Nat) : String :=
  let size := match nested with
    | some n => ", " ++ toString n ++ " nested"
    | none => ""
  "Command(" ++ Leaf.plain h.name ++ ", " ++ toString h.arguments.length ++ " args" ++ size ++ ")"

def Command.shown [Leaf τ] (c : Command α τ) : String :=
  c.head.shown (c.block?.map (·.commands.length))

def Block.shown (b : Block α τ) : String := "Block(" ++ toString b.commands.length ++ " commands)"

def Comment.shown [Leaf τ] (c : Comment τ) : String := "Comment(" ++ Leaf.shown c.text ++ ")"

def Script.shown [Leaf τ] (s : Script α τ) : String :=
  "Script(" ++ Leaf.plain s.filename ++ ", " ++ toString s.commands.length ++ " commands)"

end MailFilter
