import MailFilter.Store.Basic
import MailFilter.Store.Refusal

/-!
# Audits

Going over all that can be reached from a script, to find whether every command and block has one
owner, no test is shared, and the capabilities belong to a leading `require`. An audit gives the
number of commands, or the first thing that is wrong. Anything may be in the store.
-/

namespace MailFilter

namespace Store

/-- What an audit has met, and the blocks it has still to look at, the next one first. -/
structure AuditState where
  blocks : List BlockId
  commands : List CommandId
  tests : List Nat
  waiting : List BlockId

def finding (s : Store) (reason : Refusal) (c : CommandId) : Except EditError α :=
  .error (.refused reason (some (s.command c).head.name))

/-- Refuses tests that were met before, and gives all that have been met. Only tests are expected. -/
def auditTests (s : Store) (c : CommandId) (met : List Nat) :
    List (Argument Mark Value) → Except EditError (List Nat)
  | [] => .ok met
  | .test t :: as =>
    if met.contains t.mark.id then s.finding (.sharedTest t.shown) c
    else s.auditTests c (t.mark.id :: met) as
  | _ :: _ => .error (.misfit .member)

def auditCommand (s : Store) (top b : BlockId) (first : Bool) (a : AuditState) (c : CommandId) :
    Except EditError AuditState := do
  let cell := s.command c
  if a.commands.contains c then s.finding (.commandTwice (s.shown c)) c
  if cell.parent != some b then s.finding (.staleParent (s.shown c)) c
  fitting cell.head.name.fitName
  if cell.head.isBareRequire && (b != top || !first) then s.finding .lateRequire c
  let tests ← s.auditTests c a.tests
    (cell.head.tests.flatMap Test.items)
  let a := { a with commands := c :: a.commands, tests }
  match cell.block with
  | none => return a
  | some own =>
    if (s.block own).owner != some (.command c) then s.finding (.staleBlock (s.shown c)) c
    return { a with waiting := own :: a.waiting }

def auditCommands (s : Store) (top b : BlockId) (first : Bool) (a : AuditState) :
    List CommandId → Except EditError AuditState
  | [] => .ok a
  | c :: cs => do s.auditCommands top b false (← s.auditCommand top b first a c) cs

/-- Looks at the blocks that wait, no more of them than a number. -/
def auditBlocks (s : Store) (top : BlockId) : Nat → AuditState → Except EditError AuditState
  | 0, a => .ok a
  | fuel + 1, a =>
    match a.waiting with
    | [] => .ok a
    | b :: waiting => do
      if a.blocks.contains b then
        throw (.refused (.blockTwice ("Block(" ++ toString (s.block b).commands.length ++
          " commands)")) none)
      s.auditBlocks top fuel
        (← s.auditCommands top b true { a with blocks := b :: a.blocks, waiting }
          (s.block b).commands)

/-- Whether two names are the same in lower case. -/
def hasTwice (names : List String) : Bool :=
  let lowered := names.map Text.lower
  lowered.eraseDups.length != lowered.length

/-- Audits a script. Every block but the top one waits for a command of its own, so there are no
more blocks to look at than commands and one. -/
def audit (s : Store) (k : ScriptId) : Except EditError Nat := do
  let cell := s.script k
  if (s.block cell.block).owner != some (.script k) then throw (.refused .topBlock none)
  let a ← s.auditBlocks cell.block (s.commands.size + 1) ⟨[], [], [], [cell.block]⟩
  fitting (cell.capabilities.forM Value.fitText)
  if hasTwice (cell.capabilities.map Value.plain) then throw (.refused .capabilityTwice none)
  if !cell.capabilities.isEmpty && (s.requireOf? k).isNone then
    throw (.refused .capabilitiesAlone none)
  return a.commands.length

end Store

end MailFilter
