import MailFilter.Script.Tree

/-!
# The leaves of a tree

All that stands for text in a tree: names, tags, strings, and the texts of comments.
-/

namespace MailFilter

variable {α : Type}

mutual

/-- The texts of an argument; of what is no argument, what messages show. -/
def Argument.leaves : Argument α → List String
  | .string value _ _ => [value]
  | .strings values _ => values
  | .number .. => []
  | .tag name _ => [name]
  | .test t => t.leaves
  | .foreign shown => [shown]

def Test.leaves : Test α → List String
  | .mk name arguments tests _ => name :: (Argument.leavesAll arguments ++ Argument.leavesAll tests)

def Argument.leavesAll : List (Argument α) → List String
  | [] => []
  | a :: as => a.leaves ++ Argument.leavesAll as

end

def Head.leaves (h : Head α) : List String :=
  h.name :: (Argument.leavesAll h.arguments ++ h.comments.map (·.text))

mutual

def Command.leaves : Command α → List String
  | .simple head => head.leaves
  | .control head commands trailing _ =>
    head.leaves ++ (Command.leavesAll commands ++ trailing.map (·.text))

def Command.leavesAll : List (Command α) → List String
  | [] => []
  | c :: cs => c.leaves ++ Command.leavesAll cs

end

def Block.leaves (b : Block α) : List String :=
  Command.leavesAll b.commands ++ b.trailing.map (·.text)

def Script.leaves (s : Script α) : List String := s.capabilities ++ s.block.leaves

theorem Argument.leavesAll_single (a : Argument α) : leavesAll [a] = a.leaves := by
  rw [leavesAll, leavesAll, List.append_nil]

theorem Command.leavesAll_append (cs ds : List (Command α)) :
    leavesAll (cs ++ ds) = leavesAll cs ++ leavesAll ds := by
  induction cs with
  | nil => rfl
  | cons c cs ih => rw [List.cons_append, leavesAll, leavesAll, ih, List.append_assoc]

end MailFilter
