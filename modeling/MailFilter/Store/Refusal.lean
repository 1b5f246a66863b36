import MailFilter.Error
import MailFilter.Script.Misfit

/-!
# Why an edit is refused

The invariants of a store, the ways in which an edit or a finding breaks one, and their texts. Nodes
appear in them as messages show them.
-/

namespace MailFilter

/-- What an edit must not break. -/
inductive Invariant where
  /-- A command or a block has exactly one owner. -/
  | singleOwner
  /-- A command is never inside itself. -/
  | acyclic
  /-- A command is where it claims to be. -/
  | membership
  /-- A place in a block. -/
  | position
  /-- A `require` leads the script and owns its capabilities. -/
  | requireFirst
  /-- The shape of arguments. -/
  | arguments
  deriving DecidableEq, Repr

def Invariant.text : Invariant → String
  | singleOwner => "single-owner"
  | acyclic => "acyclic"
  | membership => "membership"
  | position => "position"
  | requireFirst => "require-first"
  | arguments => "arguments"

/-- Why an edit is refused, or what an audit finds. -/
inductive Refusal where
  | listed (command : String)
  | insertedInside (command : String)
  | movedInside (command : String)
  | inScript (command : String)
  | blockInScript (command : String)
  | testInUse (test : String)
  | outOfRange (index : String) (size : Nat)
  | requireInserted
  | requireMoved
  | requireArguments
  | beforeRequire
  | otherRequire
  | noArgument (shown : String)
  | argumentTwice (argument : String)
  | testNotLast
  | unlisted (command : String)
  | emptyCapability
  | ruleName (name : String)
  | topBlock
  | commandTwice (command : String)
  | blockTwice (block : String)
  | staleParent (command : String)
  | staleBlock (command : String)
  | sharedTest (test : String)
  | lateRequire
  | capabilityTwice
  | capabilitiesAlone
  deriving DecidableEq, Repr

namespace Refusal

def invariant : Refusal → Invariant
  | listed _ | inScript _ | blockInScript _ | testInUse _ | argumentTwice _ | topBlock
  | commandTwice _ | staleParent _ | staleBlock _ | sharedTest _ => .singleOwner
  | insertedInside _ | movedInside _ | blockTwice _ => .acyclic
  | unlisted _ => .membership
  | outOfRange .. => .position
  | requireInserted | requireMoved | requireArguments | beforeRequire | otherRequire | lateRequire
  | capabilityTwice | capabilitiesAlone => .requireFirst
  | noArgument _ | testNotLast | emptyCapability | ruleName _ => .arguments

def detail : Refusal → String
  | listed command => command ++ " already belongs to a block; use move_command"
  | insertedInside command => "Cannot insert " ++ command ++ " inside itself"
  | movedInside command => "Cannot move " ++ command ++ " inside itself"
  | inScript command => command ++ " is already in the script"
  | blockInScript command => "The block of " ++ command ++ " is already in the script"
  | testInUse test => test ++ " already belongs to another command"
  | outOfRange index size =>
    "Index " ++ index ++ " out of range 0.." ++ toString size
  | requireInserted => "require is managed through declare_capability"
  | requireMoved => "require cannot be moved"
  | requireArguments => "The require list is edited through declare_capability"
  | beforeRequire => "require must stay the first command"
  | otherRequire => "The leading require command does not hold a plain capability list"
  | noArgument shown => "Not an argument: " ++ shown
  | argumentTwice argument => "Argument " ++ argument ++ " appears twice"
  | testNotLast => "A test must be the last argument"
  | unlisted command => command ++ " is not in any block"
  | emptyCapability => "Capability name must not be empty"
  | ruleName name => "Invalid rule name " ++ name
  | topBlock => "Top-level block does not point back to the script"
  | commandTwice command => command ++ " is reachable twice"
  | blockTwice block => block ++ " is reachable twice"
  | staleParent command => command ++ " has a stale parent"
  | staleBlock command => "Block of " ++ command ++ " has a stale parent"
  | sharedTest test => test ++ " is shared"
  | lateRequire => "Capability require is not the first command"
  | capabilityTwice => "Duplicate capability in the require list"
  | capabilitiesAlone => "Capabilities declared without a require command"

def message (r : Refusal) : String := r.invariant.text ++ ": " ++ r.detail

end Refusal

/-- An edit that is refused, perhaps about a command of a name, or that would nest too deep, or that
cannot go on with what it finds. -/
inductive EditError where
  | refused (reason : Refusal) (command : Option Value)
  | tooDeep (error : DepthError)
  | misfit (misfit : Misfit)

def fitting (fit : Fit) : Except EditError Unit := fit.mapError .misfit

/-- A question in an edit that a misfit may leave open. -/
def fitting? (answer : Except Misfit Bool) : Except EditError Bool := answer.mapError .misfit

end MailFilter
