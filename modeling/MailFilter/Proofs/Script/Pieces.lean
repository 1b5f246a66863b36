import MailFilter.Proofs.Script.Leaves
import MailFilter.Proofs.Script.Outline

/-!
# The pieces of a tree

What stands at a place of its own in a tree that was read: the name of a command or a test, an argument
that is no test, the opening of a block, and a comment.
-/

namespace MailFilter

/-- What a piece is.  Arguments are given without their places. -/
inductive Part where
  | name (name : String)
  | argument (argument : Argument Unit)
  | opening
  | comment (text : String)

/-- A part of a tree and its place. -/
structure Piece where
  part : Part
  pos : Pos

def Comment.piece (c : Comment) : Piece := ⟨.comment c.text, c.pos⟩

mutual

def Argument.pieces : Argument Pos → List Piece
  | .test t => t.pieces
  | a => [⟨.argument a.outline, a.mark?.getD .nowhere⟩]

def Test.pieces : Test Pos → List Piece
  | .mk name arguments tests p =>
    ⟨.name name, p⟩ :: (Argument.piecesAll arguments ++ Argument.piecesAll tests)

def Argument.piecesAll : List (Argument Pos) → List Piece
  | [] => []
  | a :: as => a.pieces ++ Argument.piecesAll as

end

def Head.pieces (h : Head) : List Piece :=
  ⟨.name h.name, h.mark⟩ :: (Argument.piecesAll h.arguments ++ h.comments.map Comment.piece)

mutual

def Command.pieces : Command → List Piece
  | .simple head => head.pieces
  | .control head commands trailing opening =>
    head.pieces ++ ⟨.opening, opening⟩ :: (Command.piecesAll commands ++ trailing.map Comment.piece)

def Command.piecesAll : List Command → List Piece
  | [] => []
  | c :: cs => c.pieces ++ Command.piecesAll cs

end

def Block.pieces (b : Block) : List Piece :=
  Command.piecesAll b.commands ++ b.trailing.map Comment.piece

def Script.pieces (s : Script) : List Piece := s.block.pieces

theorem Argument.piecesAll_append (as bs : List (Argument Pos)) :
    piecesAll (as ++ bs) = piecesAll as ++ piecesAll bs := by
  induction as with
  | nil => rfl
  | cons a as ih => rw [List.cons_append, piecesAll, piecesAll, ih, List.append_assoc]

theorem Argument.piecesAll_single (a : Argument Pos) : piecesAll [a] = a.pieces := by
  rw [piecesAll, piecesAll, List.append_nil]

theorem Argument.piecesAll_map_test (ts : List (Test Pos)) :
    piecesAll (ts.map .test) = ts.flatMap Test.pieces := by
  induction ts with
  | nil => rfl
  | cons t ts ih => rw [List.map_cons, piecesAll, pieces, ih, List.flatMap_cons]

theorem Command.piecesAll_append (cs ds : List Command) :
    piecesAll (cs ++ ds) = piecesAll cs ++ piecesAll ds := by
  induction cs with
  | nil => rfl
  | cons c cs ih => rw [List.cons_append, piecesAll, piecesAll, ih, List.append_assoc]

theorem Command.piecesAll_single (c : Command) : piecesAll [c] = c.pieces := by
  rw [piecesAll, piecesAll, List.append_nil]

theorem Command.pieces_bare (c : Command) :
    (ofParts { c.head with arguments := [] } c.block?).pieces ⊆ c.pieces := by
  have hhead : ∀ h : Head, ({ h with arguments := [] } : Head).pieces ⊆ h.pieces := fun h =>
    List.cons_subset_cons _ (List.subset_append_right _ _)
  cases c with
  | simple head => exact hhead head
  | control head commands trailing opening =>
      exact List.append_subset.mpr
        ⟨List.subset_append_of_subset_left _ (hhead head), List.subset_append_right _ _⟩

/-! ## Texts -/

def Part.leaves : Part → List String
  | .name text => [text]
  | .argument a => a.leaves
  | .opening => []
  | .comment text => [text]

def Piece.leavesAll (xs : List Piece) : List String := xs.flatMap (·.part.leaves)

theorem Piece.leavesAll_append (xs ys : List Piece) :
    leavesAll (xs ++ ys) = leavesAll xs ++ leavesAll ys := List.flatMap_append

theorem Piece.leavesAll_cons (x : Piece) (xs : List Piece) :
    leavesAll (x :: xs) = x.part.leaves ++ leavesAll xs := List.flatMap_cons

theorem Piece.leavesAll_subset {xs ys : List Piece} (h : xs ⊆ ys) : leavesAll xs ⊆ leavesAll ys := by
  intro text htext
  obtain ⟨x, hx, htext⟩ := List.mem_flatMap.mp htext
  exact List.mem_flatMap.mpr ⟨x, h hx, htext⟩

theorem Comment.leavesAll_pieces (cs : List Comment) :
    Piece.leavesAll (cs.map Comment.piece) = cs.map (·.text) := by
  rw [Piece.leavesAll, List.flatMap_map, List.map_eq_flatMap]
  rfl

mutual

theorem Argument.leavesAll_pieces (a : Argument Pos) : Piece.leavesAll a.pieces = a.leaves := by
  cases a with
  | test t => exact Test.leavesAll_pieces t
  | string | strings | number | tag | foreign => exact List.append_nil _

theorem Test.leavesAll_pieces (t : Test Pos) : Piece.leavesAll t.pieces = t.leaves := by
  cases t with
  | mk name arguments tests p =>
      rw [Test.pieces, Piece.leavesAll_cons, Piece.leavesAll_append, Argument.leavesAll_piecesAll arguments,
        Argument.leavesAll_piecesAll tests]
      rfl

theorem Argument.leavesAll_piecesAll (as : List (Argument Pos)) :
    Piece.leavesAll (Argument.piecesAll as) = Argument.leavesAll as := by
  cases as with
  | nil => rfl
  | cons a as =>
      rw [Argument.piecesAll, Piece.leavesAll_append, Argument.leavesAll_pieces a,
        Argument.leavesAll_piecesAll as, Argument.leavesAll]

end

theorem Head.leavesAll_pieces (h : Head) : Piece.leavesAll h.pieces = h.leaves := by
  rw [Head.pieces, Piece.leavesAll_cons, Piece.leavesAll_append, Argument.leavesAll_piecesAll,
    Comment.leavesAll_pieces]
  rfl

mutual

theorem Command.leavesAll_pieces (c : Command) : Piece.leavesAll c.pieces = c.leaves := by
  cases c with
  | simple head => exact head.leavesAll_pieces
  | control head commands trailing opening =>
      rw [Command.pieces, Piece.leavesAll_append, Piece.leavesAll_cons, Piece.leavesAll_append,
        Head.leavesAll_pieces, Command.leavesAll_piecesAll commands, Comment.leavesAll_pieces]
      rfl

theorem Command.leavesAll_piecesAll (cs : List Command) :
    Piece.leavesAll (Command.piecesAll cs) = Command.leavesAll cs := by
  cases cs with
  | nil => rfl
  | cons c cs =>
      rw [Command.piecesAll, Piece.leavesAll_append, Command.leavesAll_pieces c,
        Command.leavesAll_piecesAll cs, Command.leavesAll]

end

theorem Block.leavesAll_pieces (b : Block) : Piece.leavesAll b.pieces = b.leaves := by
  rw [Block.pieces, Piece.leavesAll_append, Command.leavesAll_piecesAll, Comment.leavesAll_pieces]
  rfl

end MailFilter
