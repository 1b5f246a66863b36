import MailFilter.Script.Data

/-!
# Stores

Scripts that are being edited. Every command and every block is a cell of its own with a number, so
that a command stays the same while it moves. A block lists its commands and a command names its
block; a command also names the block it is listed in, and a block its owner. A store may hold
anything: that these links agree is what `Audit` checks and what the operations of `Edit` keep.
-/

namespace MailFilter

/-- The number of a command in a store. -/
abbrev CommandId := Nat

/-- The number of a block in a store. -/
abbrev BlockId := Nat

/-- The number of a script in a store. -/
abbrev ScriptId := Nat

/-- The place of an argument or a test, and its number, which tells it from others that look the
same. -/
structure Mark where
  location : Location
  id : Nat
  deriving Inhabited

instance : Located Mark := ⟨Mark.location⟩

/-- What a block belongs to. -/
inductive Owner where
  | command (command : CommandId)
  | script (script : ScriptId)
  deriving DecidableEq, Repr

namespace Store

/-- A command: its head, its block, and the block that lists it. -/
structure CommandCell where
  head : Head Mark Value
  block : Option BlockId
  parent : Option BlockId

/-- A block: its commands, the comments at its end, its place, and its owner. -/
structure BlockCell where
  commands : List CommandId
  trailing : List (Comment Value)
  pos : Pos
  owner : Option Owner

/-- A script: its top block, its capabilities, and where it comes from. -/
structure ScriptCell where
  block : BlockId
  capabilities : List Value
  filename : Value
  pos : Pos

instance : Inhabited CommandCell := ⟨⟨.null, [], [], default⟩, none, none⟩

instance : Inhabited BlockCell := ⟨[], [], .nowhere, none⟩

instance : Inhabited ScriptCell := ⟨0, [], .null, .nowhere⟩

end Store

/-- Commands, blocks and scripts by their numbers, and the next number for a mark. -/
structure Store where
  commands : Array Store.CommandCell
  blocks : Array Store.BlockCell
  scripts : Array Store.ScriptCell
  nextMark : Nat

namespace Store

def empty : Store := ⟨#[], #[], #[], 0⟩

/-! ## Cells -/

def command (s : Store) (c : CommandId) : CommandCell := s.commands.getD c default

def block (s : Store) (b : BlockId) : BlockCell := s.blocks.getD b default

def script (s : Store) (k : ScriptId) : ScriptCell := s.scripts.getD k default

def modifyCommand (s : Store) (c : CommandId) (f : CommandCell → CommandCell) : Store :=
  { s with commands := s.commands.modify c f }

def modifyBlock (s : Store) (b : BlockId) (f : BlockCell → BlockCell) : Store :=
  { s with blocks := s.blocks.modify b f }

def modifyScript (s : Store) (k : ScriptId) (f : ScriptCell → ScriptCell) : Store :=
  { s with scripts := s.scripts.modify k f }

def pushCommand (s : Store) (c : CommandCell) : Store × CommandId :=
  ({ s with commands := s.commands.push c }, s.commands.size)

def pushBlock (s : Store) (b : BlockCell) : Store × BlockId :=
  ({ s with blocks := s.blocks.push b }, s.blocks.size)

theorem command_modifyCommand (s : Store) (c d : CommandId) (f : CommandCell → CommandCell)
    (h : c < s.commands.size) :
    (s.modifyCommand c f).command d = if d = c then f (s.command d) else s.command d := by
  simp only [command, modifyCommand, Array.getD_eq_getD_getElem?, Array.getElem?_modify]
  by_cases hd : c = d
  · subst hd
    simp [h]
  · simp [hd, Ne.symm hd]

theorem block_modifyBlock (s : Store) (b d : BlockId) (f : BlockCell → BlockCell)
    (h : b < s.blocks.size) :
    (s.modifyBlock b f).block d = if d = b then f (s.block d) else s.block d := by
  simp only [block, modifyBlock, Array.getD_eq_getD_getElem?, Array.getElem?_modify]
  by_cases hd : b = d
  · subst hd
    simp [h]
  · simp [hd, Ne.symm hd]

@[simp] theorem block_modifyCommand (s : Store) (c : CommandId) (f : CommandCell → CommandCell)
    (b : BlockId) : (s.modifyCommand c f).block b = s.block b := rfl

@[simp] theorem command_modifyBlock (s : Store) (b : BlockId) (f : BlockCell → BlockCell)
    (c : CommandId) : (s.modifyBlock b f).command c = s.command c := rfl

/-! ## Looking around -/

def children (s : Store) (c : CommandId) : List CommandId :=
  match (s.command c).block with
  | some b => (s.block b).commands
  | none => []

/-- A command and the commands below it down to a depth, each before those below it. -/
def walkTo (s : Store) : Nat → CommandId → List CommandId
  | 0, _ => []
  | depth + 1, c => c :: (s.children c).flatMap (s.walkTo depth)

/-- A command and the commands below it. Nothing nests deeper than there are commands. -/
def walk (s : Store) (c : CommandId) : List CommandId := s.walkTo s.commands.size c

def walkScript (s : Store) (k : ScriptId) : List CommandId :=
  (s.block (s.script k).block).commands.flatMap s.walk

def shown (s : Store) (c : CommandId) : String :=
  let cell := s.command c
  let count := cell.block.map fun b => (s.block b).commands.length
  let size := match count with
    | some n => ", " ++ toString n ++ " nested"
    | none => ""
  "Command(" ++ cell.head.name.plain ++ ", " ++ toString cell.head.arguments.length ++ " args" ++ size ++
    ")"

/-- The command that the capabilities of a script belong to: a `require` at its front that has no
arguments of its own. -/
def requireOf? (s : Store) (k : ScriptId) : Option CommandId :=
  (s.block (s.script k).block).commands.head?.filter fun c => (s.command c).head.isBareRequire

/-- The script that a block is part of, looked for no further up than some number of blocks. -/
def scriptAbove? (s : Store) : Nat → BlockId → Option ScriptId
  | 0, _ => none
  | fuel + 1, b =>
    match (s.block b).owner with
    | none => none
    | some (.script k) => some k
    | some (.command c) => (s.command c).parent.bind (s.scriptAbove? fuel)

/-- The script that a block is part of, if it is part of one. -/
def scriptOf? (s : Store) (b : BlockId) : Option ScriptId := s.scriptAbove? s.blocks.size b

/-- The commands around a block, the outermost first, before the ones that are given; one that was
met before ends the search. -/
def around (s : Store) : Nat → List CommandId → BlockId → List CommandId
  | 0, met, _ => met
  | fuel + 1, met, b =>
    match (s.block b).owner with
    | some (.command c) =>
      if met.contains c then met
      else match (s.command c).parent with
        | some p => s.around fuel (c :: met) p
        | none => c :: met
    | _ => met

/-- How many commands are around a block. -/
def level (s : Store) (b : BlockId) : Nat := (s.around (s.commands.size + 1) [] b).length

/-- How many levels of blocks and tests a command takes, looked for down to a depth. -/
def heightTo (s : Store) : Nat → CommandId → Nat
  | 0, _ => 0
  | depth + 1, c =>
    let own := Test.heightOf (s.command c).head.arguments
    match (s.command c).block with
    | none => own
    | some b => max own (1 + ((s.block b).commands.map (s.heightTo depth)).foldl max 0)

def height (s : Store) (c : CommandId) : Nat := s.heightTo s.commands.size c

end Store

end MailFilter
