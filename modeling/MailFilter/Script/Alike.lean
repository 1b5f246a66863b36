import MailFilter.Script.Tree

/-!
# Scripts that mean the same

Two trees are alike if they differ at most in places, comments, the forms of strings and the name of
the file.
-/

namespace MailFilter

mutual

def Argument.alike : Argument α → Argument β → Bool
  | .string a _ _, .string b _ _ => a == b
  | .strings a _, .strings b _ => a == b
  | .number a u _, .number b v _ => a == b && u == v
  | .tag a _, .tag b _ => a == b
  | .test a, .test b => Test.alike a b
  | .foreign a, .foreign b => a == b
  | _, _ => false

def Test.alike : Test α → Test β → Bool
  | .mk n as ts _, .mk m bs us _ => n == m && Argument.allAlike as bs && Argument.allAlike ts us

def Argument.allAlike : List (Argument α) → List (Argument β) → Bool
  | [], [] => true
  | a :: as, b :: bs => a.alike b && Argument.allAlike as bs
  | _, _ => false

end

def Head.alike (a : Head α) (b : Head β) : Bool :=
  a.name == b.name && Argument.allAlike a.arguments b.arguments

mutual

def Command.alike : Command α → Command β → Bool
  | .simple a, .simple b => a.alike b
  | .control a cs _ _, .control b ds _ _ => a.alike b && Command.allAlike cs ds
  | _, _ => false

def Command.allAlike : List (Command α) → List (Command β) → Bool
  | [], [] => true
  | c :: cs, d :: ds => c.alike d && Command.allAlike cs ds
  | _, _ => false

end

def Script.alike (a : Script α) (b : Script β) : Bool :=
  a.capabilities == b.capabilities && Command.allAlike a.commands b.commands

end MailFilter
