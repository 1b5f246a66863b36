import MailFilter.Registry
import MailFilter.Script.Usage
import MailFilter.Store.Basic
import MailFilter.Store.Refusal

/-!
# Editing

The operations on commands, capabilities and names of rules. Each of them checks first and changes
afterwards, and gives the changed store or an error. Two of them may fail on the way: a move to an
index that is a floating point number has taken the command out of its block by then, and of several
capabilities those before the one at fault have been declared. Their errors come with the store that
is left.
-/

namespace MailFilter

namespace Store

/-- An error, and the store that the operation leaves. -/
structure Failure where
  error : EditError
  store : Store

/-- What leaves a store as it is where it fails. -/
def leaving (s : Store) (x : Except EditError α) : Except Failure α := x.mapError (⟨·, s⟩)

def refuse (s : Store) (reason : Refusal) (c : CommandId) : Except EditError α :=
  .error (.refused reason (some (s.command c).head.name))

def refuseIf (s : Store) (condition : Bool) (reason : Refusal) (c : CommandId) :
    Except EditError Unit :=
  if condition then s.refuse reason c else .ok ()

/-! ## Checks -/

/-- Whether a command is listed by the block that it names. -/
def isListed (s : Store) (c : CommandId) : Bool :=
  match (s.command c).parent with
  | some b => (s.block b).commands.contains c
  | none => false

def holdsBlock (s : Store) (c : CommandId) (b : BlockId) : Bool :=
  (s.walk c).any fun d => (s.command d).block == some b

/-- The numbers of the tests among arguments, with the tests inside them. -/
def testIds (arguments : List (Argument Mark Value)) : List Nat :=
  (arguments.filterMap Argument.test?).flatMap fun t => t.walk.map (·.mark.id)

def testIdsOf (s : Store) (commands : List CommandId) : List Nat :=
  commands.flatMap fun c => testIds (s.command c).head.arguments

/-- Refuses commands with something else among the tests of their arguments. -/
def checkItems (s : Store) (commands : List CommandId) : Except EditError Unit :=
  fitting (commands.forM fun c => (s.command c).head.tests.forM Test.fitHeight)

/-- Refuses a script whose first command has no proper name. -/
def checkFront (s : Store) (k : ScriptId) : Except EditError Unit :=
  match (s.block (s.script k).block).commands with
  | c :: _ => fitting (s.command c).head.name.fitName
  | [] => .ok ()

/-- Refuses a place before the `require` of a script. -/
def checkRequireSlot (s : Store) (b : BlockId) (index : Value) (c : CommandId) :
    Except EditError Unit :=
  match s.scriptOf? b with
  | none => .ok ()
  | some k =>
    if (s.script k).block == b then do
      s.checkFront k
      match s.requireOf? k with
      | none => .ok ()
      | some r =>
        s.refuseIf (r != c && index.compareInt? 0 == some (some .eq)) .beforeRequire c
    else .ok ()

/-- Refuses a list of arguments that holds something else, one argument twice, or a test before
another argument. The numbers are those of the arguments before the list. -/
def checkArgumentsAfter (s : Store) (c : CommandId) (seen : List Nat) :
    List (Argument Mark Value) → Except EditError Unit
  | [] => .ok ()
  | .foreign shown :: _ => s.refuse (.noArgument shown) c
  | a :: rest => do
    let ids := a.mark?.toList.map (·.id)
    s.refuseIf (ids.any seen.contains) (.argumentTwice a.shown) c
    s.refuseIf (a.test?.isSome && !rest.isEmpty) .testNotLast c
    s.checkArgumentsAfter c (ids ++ seen) rest

/-- Refuses a list of arguments that no command can have. -/
def checkArguments (s : Store) (c : CommandId) (arguments : List (Argument Mark Value)) :
    Except EditError Unit :=
  s.checkArgumentsAfter c [] arguments

/-- Refuses tests that have an owner already: their numbers are among those in use. Gives the
numbers in use with those of the tests. -/
def checkTests (s : Store) (c : CommandId) (used : List Nat) :
    List (Test Mark Value) → Except EditError (List Nat)
  | [] => .ok used
  | t :: ts => do
    fitting t.fitHeight
    let ids := t.walk.map (·.mark.id)
    s.refuseIf (ids.any used.contains) (.testInUse t.shown) c
    s.checkTests c (ids ++ used) ts

/-- Refuses commands whose number, block or tests are in a script already. -/
def checkFresh (s : Store) (c : CommandId) (commands blocks : List Nat) :
    List Nat → List CommandId → Except EditError Unit
  | _, [] => .ok ()
  | used, d :: ds => do
    let cell := s.command d
    s.refuseIf (commands.contains d) (.inScript (s.shown d)) c
    s.refuseIf (cell.block.any blocks.contains) (.blockInScript (s.shown d)) c
    let used ← s.checkTests c used cell.head.tests
    s.checkFresh c commands blocks used ds

/-- Refuses a command if anything below it has an owner in the script of a block. -/
def checkDetached (s : Store) (b : BlockId) (c : CommandId) : Except EditError Unit :=
  match s.scriptOf? b with
  | none => s.checkFresh c [] [] [] (s.walk c)
  | some k => do
    let commands := s.walkScript k
    let blocks := (s.script k).block :: commands.filterMap fun d => (s.command d).block
    s.checkItems commands
    s.checkFresh c commands blocks (s.testIdsOf commands) (s.walk c)

/-- Refuses what would take more levels than the limit, at the place of a command. -/
def checkDepth (s : Store) (levels : Nat) (c : CommandId) (limit : Value) : Except EditError Unit :=
  match limit.compareInt? levels with
  | none => .error (.misfit .operand)
  | some (some .lt) =>
    let l := (s.command c).head.mark.location
    .error (.tooDeep ⟨limit, l.line, l.column⟩)
  | some _ => .ok ()

def checkIndex (s : Store) (index : Value) (size : Nat) (c : CommandId) : Except EditError Unit :=
  match index.compareInt? 0, index.compareInt? size with
  | some low, some high =>
    let inside := (low == some .gt || low == some .eq) && (high == some .lt || high == some .eq)
    s.refuseIf (!inside) (.outOfRange index.plain size) c
  | _, _ => .error (.misfit .operand)

/-- The place in a list that an index is. Floating point numbers are none, not even 1.0. -/
def slot : Value → Except EditError Nat
  | .int n => .ok n.toNat
  | .bool b => .ok (if b then 1 else 0)
  | _ => .error (.misfit .operand)

/-! ## Commands -/

def list (s : Store) (b : BlockId) (index : Nat) (c : CommandId) : Store :=
  (s.modifyBlock b fun cell => { cell with commands := cell.commands.insertIdx index c }).modifyCommand c
    ({ · with parent := some b })

def unlist (s : Store) (b : BlockId) (c : CommandId) : Store :=
  s.modifyBlock b fun cell => { cell with commands := cell.commands.erase c }

/-- Inserts a command that is in no block. -/
def insert (s : Store) (b : BlockId) (index : Value) (c : CommandId) (limit : Value) :
    Except EditError Store := do
  let cell := s.command c
  s.refuseIf cell.parent.isSome (.listed (s.shown c)) c
  s.refuseIf (s.holdsBlock c b) (.insertedInside (s.shown c)) c
  s.checkDetached b c
  s.checkIndex index (s.block b).commands.length c
  fitting cell.head.name.fitName
  s.refuseIf (cell.head.keyword? == some .require) .requireInserted c
  s.checkArguments c cell.head.arguments
  s.checkRequireSlot b index c
  s.checkDepth (s.level b + s.height c) c limit
  let s := s.list b (← slot index) c
  return match cell.block with
    | some own => s.modifyBlock own ({ · with owner := some (.command c) })
    | none => s

def append (s : Store) (b : BlockId) (c : CommandId) (limit : Value) : Except EditError Store :=
  s.insert b (.int (s.block b).commands.length) c limit

/-- Whether a command is the `require` of the script that a block is part of. -/
def isRequireOf (s : Store) (b : BlockId) (c : CommandId) : Bool :=
  (s.scriptOf? b).any fun k => s.requireOf? k == some c

/-- Refuses a block of a script whose first command has no proper name. -/
def checkScriptFront (s : Store) (b : BlockId) : Except EditError Unit :=
  match s.scriptOf? b with
  | some k => s.checkFront k
  | none => .ok ()

/-- Takes a command out of its block. The capabilities go with the `require` they belong to. -/
def remove (s : Store) (c : CommandId) : Except EditError Store := do
  s.refuseIf (!s.isListed c) (.unlisted (s.shown c)) c
  match (s.command c).parent with
  | none => return s
  | some b =>
    s.checkScriptFront b
    let s' := match s.scriptOf? b with
      | some k =>
        if s.requireOf? k == some c then s.modifyScript k ({ · with capabilities := [] }) else s
      | none => s
    return (s'.unlist b c).modifyCommand c ({ · with parent := none })

/-- Refuses a test that is in use, or has something in use inside it. Only tests are expected there. -/
def checkUnused (s : Store) (c : CommandId) (used : List Nat) (t : Test Mark Value) :
    List (Argument Mark Value) → Except EditError Unit
  | [] => .ok ()
  | .test u :: as => do
    s.refuseIf (used.contains u.mark.id) (.testInUse t.shown) c
    s.checkUnused c used t as
  | _ :: _ => .error (.misfit .member)

def replace (s : Store) (c : CommandId) (arguments : List (Argument Mark Value)) (limit : Value) :
    Except EditError Store := do
  let parent := (s.command c).parent
  parent.forM s.checkScriptFront
  s.refuseIf (parent.any (s.isRequireOf · c)) .requireArguments c
  s.checkArguments c arguments
  let others := match parent.bind s.scriptOf? with
    | some k => (s.walkScript k).filter (· != c)
    | none => []
  s.checkItems others
  let used := s.testIdsOf others
  let tests := arguments.filterMap Argument.test?
  tests.forM fun t => s.checkUnused c used t t.items
  fitting (tests.forM Test.fitHeight)
  s.checkDepth ((parent.map s.level).getD 0 + Test.heightOf arguments) c limit
  return s.modifyCommand c fun cell => { cell with head := { cell.head with arguments } }

/-- Refuses a command that may not leave its block for a place. -/
def checkMove (s : Store) (c : CommandId) (source b : BlockId) (index limit : Value) :
    Except EditError Unit := do
  s.refuseIf (s.holdsBlock c b) (.movedInside (s.shown c)) c
  s.checkScriptFront source
  s.refuseIf (s.isRequireOf source c) .requireMoved c
  s.checkIndex index ((s.block b).commands.length - if b == source then 1 else 0) c
  s.checkRequireSlot b index c
  s.checkItems (s.walk c)
  s.checkDepth (s.level b + s.height c) c limit

/-- Moves a command from its block to a place, which is counted after it has left its own. Whether the
index is a place at all is found out by then, and the command is in no block where it is none. -/
def move (s : Store) (c : CommandId) (b : BlockId) (index limit : Value) : Except Failure Store := do
  s.leaving (s.refuseIf (!s.isListed c) (.unlisted (s.shown c)) c)
  match (s.command c).parent with
  | none => return s
  | some source =>
    s.leaving (s.checkMove c source b index limit)
    let left := s.unlist source c
    return left.list b (← left.leaving (slot index)) c

/-! ## Capabilities -/

/-- Puts an empty `require` at the front of a script. -/
def addRequire (s : Store) (k : ScriptId) : Store :=
  let b := (s.script k).block
  let (s, c) := s.pushCommand ⟨⟨.text "require", [], [], ⟨.nowhere, s.nextMark⟩⟩, none, some b⟩
  { s with nextMark := s.nextMark + 1 }.modifyBlock b fun cell =>
    { cell with commands := c :: cell.commands }

/-- Whether names include one in any letter case; those after it are not looked at. -/
def holdsName (name : String) : List Value → Except Misfit Bool
  | [] => .ok false
  | v :: vs => do
    v.fitText
    if Text.lower v.plain == Text.lower name then return true
    holdsName name vs

/-- Declares a capability, and tells whether it is new. -/
def declare (s : Store) (k : ScriptId) (name : String) : Except EditError (Bool × Store) := do
  let name := Text.trimmed name
  if name.isEmpty then throw (.refused .emptyCapability none)
  s.checkFront k
  let require := s.requireOf? k
  match (s.block (s.script k).block).commands.head? with
  | some first =>
    s.refuseIf (require.isNone && (s.command first).head.keyword? == some .require) .otherRequire
      first
  | none => pure ()
  if ← fitting? (holdsName name (s.script k).capabilities) then return (false, s)
  let s := if require.isNone then s.addRequire k else s
  return (true, s.modifyScript k fun cell =>
    { cell with capabilities := cell.capabilities ++ [.text name] })

def uses (s : Store) (r : Registry) (k : ScriptId) : List String :=
  ((s.walkScript k).flatMap fun c => (s.command c).head.uses r).eraseDups

/-- Refuses a script of which it cannot be told what it uses. -/
def checkUses (s : Store) (r : Registry) (k : ScriptId) : Except EditError Unit :=
  fitting ((s.walkScript k).forM fun c => (s.command c).head.fitUses r)

/-- Declares names, and gives those that are new. Where one fails, those before it stay declared. -/
def declareAll (s : Store) (k : ScriptId) : List String → Except Failure (List String × Store)
  | [] => .ok ([], s)
  | name :: names => do
    let (added, s) ← s.leaving (s.declare k name)
    let (rest, s) ← s.declareAll k names
    return (if added then name :: rest else rest, s)

/-- Declares every capability that a script uses, and gives those that are new. -/
def requireAll (s : Store) (r : Registry) (k : ScriptId) : Except Failure (List String × Store) := do
  s.leaving (s.checkUses r k)
  s.declareAll k (s.uses r k)

/-! ## Names of rules -/

/-- The characters that no name of a rule has. -/
def isRuleEnd (c : Char) : Bool := c == ']' || c == '\n' || c == '\r'

/-- Whether a value has what no name of a rule has: a text among its characters, other values among
their items. -/
def endsRule (name : Value) : Except Misfit Bool :=
  match name with
  | .text s => .ok (s.toList.any isRuleEnd)
  | v => match v.items? with
    | some items => .ok (items.any fun item => ["]", "\n", "\r"].contains (item.text?.getD ""))
    | none => .error .operand

def ruleComment (name : Value) : Comment Value := ⟨.text (" rule:[" ++ name.plain ++ "]"), .nowhere⟩

/-- Names the rule that a command is, or drops its name. -/
def nameRule (s : Store) (c : CommandId) (name : Option Value) : Except EditError Store := do
  match name with
  | some v =>
    s.refuseIf (← fitting? (endsRule v)) (.ruleName v.shown) c
  | none => pure ()
  let cell := s.command c
  fitting (cell.head.comments.forM (·.text.fitWord))
  let others := cell.head.comments.filter fun m => m.ruleName?.isNone
  return s.modifyCommand c fun cell =>
    { cell with
      head := { cell.head with comments := others ++ (name.map ruleComment).toList } }

end Store

end MailFilter
