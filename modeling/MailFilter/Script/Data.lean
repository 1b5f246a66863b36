import MailFilter.Script.Tree

/-!
# Scripts as data

A tree that came as data: its leaves are data values, and its places are what the data says. Every
script that was read is such a tree, with texts for leaves and numbers for places.
-/

namespace MailFilter

/-- A place as data gives it. The offset is zero where data does not tell it. -/
structure Location where
  line : Value
  column : Value
  offset : Nat

namespace Location

def nowhere : Location := ⟨.int 0, .int 0, 0⟩

instance : Inhabited Location := ⟨nowhere⟩

def ofPos (p : Pos) : Location := ⟨.int p.line, .int p.column, p.offset⟩

def text (l : Location) : String := l.line.plain ++ ":" ++ l.column.plain

end Location

/-- A type of marks that tell a place. -/
class Located (α : Type) where
  /-- The place that a mark tells. -/
  location : α → Location

instance : Located Pos := ⟨.ofPos⟩

instance : Located Location := ⟨id⟩

def Argument.data [Located α] [Leaf τ] (a : Argument α τ) : Argument Location Value :=
  a.map Located.location Leaf.value

def Script.data [Located α] [Leaf τ] (s : Script α τ) : Script Location Value :=
  s.map Located.location Leaf.value

def Command.settled [Leaf τ] (c : Command α τ) : Command α := c.map id Leaf.plain

def Script.settled [Leaf τ] (s : Script α τ) : Script α := s.map id Leaf.plain

end MailFilter
