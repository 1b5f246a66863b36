/-!
# Positions

Where something stands in a script: line and column, counted in characters from one, and the
offset, counted in bytes from zero. Nodes that come from no text stand at zero.
-/

namespace MailFilter

/-- A place in a script. -/
structure Pos where
  line : Int
  column : Int
  offset : Nat
  deriving DecidableEq, Repr, Inhabited

namespace Pos

def nowhere : Pos := ⟨0, 0, 0⟩

def start : Pos := ⟨1, 1, 0⟩

/-- The place after a character, whose width in bytes `width` gives. -/
def advance (width : Char → Nat) (p : Pos) (c : Char) : Pos :=
  if c == '\n' then ⟨p.line + 1, 1, p.offset + width c⟩
  else ⟨p.line, p.column + 1, p.offset + width c⟩

def after (width : Char → Nat) (p : Pos) (text : List Char) : Pos :=
  text.foldl (advance width) p

@[simp] theorem after_nil (width : Char → Nat) (p : Pos) : p.after width [] = p := rfl

@[simp] theorem after_cons (width : Char → Nat) (p : Pos) (c : Char) (text : List Char) :
    p.after width (c :: text) = (p.advance width c).after width text := rfl

theorem after_append (width : Char → Nat) (p : Pos) (a b : List Char) :
    p.after width (a ++ b) = (p.after width a).after width b := List.foldl_append

end Pos

end MailFilter
