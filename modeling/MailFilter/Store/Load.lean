import MailFilter.Store.Basic

/-!
# Trees in stores

Putting trees into a store, with fresh marks for their arguments and tests, and reading them back.
-/

namespace MailFilter

mutual

/-- An argument with fresh marks, and the next number after them. -/
def Argument.label [Located α] [Leaf τ] (next : Nat) : Argument α τ → Argument Mark Value × Nat
  | .string value form m =>
    (.string (Leaf.value value) form ⟨Located.location m, next⟩, next + 1)
  | .strings values m => (.strings (values.map Leaf.value) ⟨Located.location m, next⟩, next + 1)
  | .number value unit m => (.number value unit ⟨Located.location m, next⟩, next + 1)
  | .tag name m => (.tag (Leaf.value name) ⟨Located.location m, next⟩, next + 1)
  | .test t => let (t, next) := Test.label next t; (.test t, next)
  | .foreign shown => (.foreign shown, next)

def Test.label [Located α] [Leaf τ] (next : Nat) : Test α τ → Test Mark Value × Nat
  | .mk name arguments tests m =>
    let (arguments, next') := Argument.labelAll (next + 1) arguments
    let (tests, next'') := Argument.labelAll next' tests
    (.mk (Leaf.value name) arguments tests ⟨Located.location m, next⟩, next'')

def Argument.labelAll [Located α] [Leaf τ] (next : Nat) :
    List (Argument α τ) → List (Argument Mark Value) × Nat
  | [] => ([], next)
  | a :: as =>
    let (a, next) := a.label next
    let (as, next) := Argument.labelAll next as
    (a :: as, next)

end

namespace Store

variable [Located α] [Leaf τ]

def label (s : Store) (arguments : List (Argument α τ)) : Store × List (Argument Mark Value) :=
  let (arguments, next) := Argument.labelAll s.nextMark arguments
  ({ s with nextMark := next }, arguments)

/-- A command of its own, with a head and perhaps a block, in a block. -/
def addCell (s : Store) (parent : Option BlockId) (h : Head α τ) (block : Option BlockId) :
    Store × CommandId :=
  let (s, arguments) := s.label h.arguments
  let head : Head Mark Value := ⟨Leaf.value h.name, arguments, h.comments.map (·.map Leaf.value),
    ⟨Located.location h.mark, s.nextMark⟩⟩
  { s with nextMark := s.nextMark + 1 }.pushCommand ⟨head, block, parent⟩

mutual

def addCommand (s : Store) (parent : Option BlockId) : Command α τ → Store × CommandId
  | .simple h => s.addCell parent h none
  | .control h cs trailing opening =>
    let b := s.blocks.size
    let (s, c) := s.addCell parent h (some b)
    let (s, b) := s.pushBlock ⟨[], trailing.map (·.map Leaf.value), opening, some (.command c)⟩
    let (s, ids) := s.addCommands b cs
    (s.modifyBlock b ({ · with commands := ids }), c)

def addCommands (s : Store) (b : BlockId) : List (Command α τ) → Store × List CommandId
  | [] => (s, [])
  | c :: cs =>
    let (s, id) := s.addCommand (some b) c
    let (s, ids) := s.addCommands b cs
    (s, id :: ids)

end

def addScript (s : Store) (t : Script α τ) : Store × ScriptId :=
  let k := s.scripts.size
  let (s, b) := s.pushBlock
    ⟨[], t.block.trailing.map (·.map Leaf.value), t.block.pos, some (.script k)⟩
  let (s, ids) := s.addCommands b t.commands
  let s := s.modifyBlock b ({ · with commands := ids })
  let cell := ⟨b, t.capabilities.map Leaf.value, Leaf.value t.filename, t.pos⟩
  ({ s with scripts := s.scripts.push cell }, k)

def ofScripts (scripts : List (Script α τ)) : Store := scripts.foldl (fun s t => (s.addScript t).1) empty

def treeTo (s : Store) : Nat → CommandId → Command Mark Value
  | 0, c => .simple (s.command c).head
  | depth + 1, c =>
    let cell := s.command c
    match cell.block with
    | none => .simple cell.head
    | some b =>
      let block := s.block b
      .control cell.head (block.commands.map (s.treeTo depth)) block.trailing block.pos

def tree (s : Store) (c : CommandId) : Command Mark Value := s.treeTo s.commands.size c

def scriptTree (s : Store) (k : ScriptId) : Script Mark Value :=
  let cell := s.script k
  let block := s.block cell.block
  ⟨⟨block.commands.map s.tree, block.trailing, block.pos⟩, cell.capabilities, cell.filename,
    cell.pos⟩

end Store

end MailFilter
