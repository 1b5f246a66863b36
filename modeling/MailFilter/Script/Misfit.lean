import MailFilter.Script.Data

/-!
# Misfits

What stops an operation on a tree that came as data: a leaf that is no text where text is needed, or
an argument that is no test among tests. A tree whose leaves are texts, with tests only among tests,
has no misfits.
-/

namespace MailFilter

/-- Why an operation cannot go on with a tree. -/
inductive Misfit where
  /-- A value of a kind that an operation does not take. -/
  | operand
  /-- A value or a node that lacks what is asked of it. -/
  | member
  /-- Something that is no argument, as messages show it. -/
  | argument (shown : String)
  deriving DecidableEq, Repr

def Misfit.message : Misfit → String
  | argument shown => "Cannot format argument " ++ shown
  | _ => ""

abbrev Fit := Except Misfit Unit

namespace Value

/-- Only texts have letter case. -/
def fitText : Value → Fit
  | text _ => .ok ()
  | _ => .error .member

/-- Only texts and values that mean nothing are names of commands and tests. -/
def fitName : Value → Fit
  | text _ => .ok ()
  | v => if v.isTrue then .error .member else .ok ()

/-- Only texts are joined with others. -/
def fitWord : Value → Fit
  | text _ => .ok ()
  | _ => .error .operand

/-- Only texts are written as literals; what has items is looked into before it fails. -/
def fitLiteral : Value → Fit
  | text _ => .ok ()
  | list _ | record _ => .error .member
  | _ => .error .operand

/-- What can be a key: lists and records cannot. -/
def fitKey : Value → Fit
  | list _ | record _ => .error .operand
  | _ => .ok ()

end Value

/-- Only tests have tests inside them. -/
def Test.fitHeight (t : Test α τ) : Fit :=
  if t.items.all (·.test?.isSome) then .ok () else .error .member

/-- The tests among what stands inside a test, each checked in turn; other arguments do not fit. -/
def Test.fitItems (f : Test α τ → Fit) (t : Test α τ) : Fit :=
  t.items.forM fun a => match a.test? with
    | some u => f u
    | none => .error .member

/-- The name of the rule that comments give, the first one that does. Only texts are looked through. -/
def firstRuleName : List (Comment Value) → Except Misfit (Option String)
  | [] => .ok none
  | c :: cs => do
    c.text.fitWord
    match c.ruleName? with
    | some name => return some name
    | none => firstRuleName cs

/-- The name of the rule that a command is that came as data. -/
def Head.dataRuleName (h : Head α Value) : Except Misfit (Option String) :=
  firstRuleName h.comments.reverse

/-- The front of a script is looked at for a `require`. -/
def Script.fitFront (s : Script α Value) : Fit :=
  match s.commands with
  | c :: _ => c.head.name.fitName
  | [] => .ok ()

end MailFilter
