import MailFilter.Registry
import MailFilter.Script.Misfit

/-!
# Which capabilities a script uses

The capabilities that the commands, tests, tags and comparators of a script depend on, each once, in
the order in which the script first needs them.
-/

namespace MailFilter

/-- The capability of a comparator that is named right after its tag. -/
def comparatorUse [Leaf τ] (arguments : List (Argument α τ)) : List String :=
  match arguments with
  | .string value _ _ :: _ => ((Leaf.text? value).bind comparatorCapability?).toList
  | _ => []

/-- The capabilities that the tags among arguments need. -/
def tagUses [Leaf τ] (s : Signature) : List (Argument α τ) → List String
  | [] => []
  | .tag name _ :: rest =>
    (((Leaf.text? name).bind s.tag?).bind (·.need?)).toList ++
      (if Leaf.text? name == some ":comparator" then comparatorUse rest else []) ++ tagUses s rest
  | _ :: rest => tagUses s rest

def Registry.leafLookup? [Leaf τ] (r : Registry) (name : τ) : Option Signature :=
  (Leaf.text? name).bind r.lookup?

/-- The capabilities that a command or test needs on its own. -/
def nodeUses [Leaf τ] (r : Registry) (name : τ) (arguments : List (Argument α τ)) : List String :=
  match r.leafLookup? name with
  | none => []
  | some s => s.need?.toList ++ tagUses s arguments

/-- The capabilities that a command and its test need, without its block. -/
def Head.uses [Leaf τ] (r : Registry) (h : Head α τ) : List String :=
  nodeUses r h.name h.arguments ++
    ((h.test?.map Test.walk).getD []).flatMap fun t => nodeUses r t.name t.arguments

def Script.uses [Leaf τ] (r : Registry) (s : Script α τ) : List String :=
  (s.walk.flatMap fun c => c.head.uses r).eraseDups

/-! ## Trees that came as data -/

/-- Whether the tags of a command or test can be looked up, and its comparators. -/
def fitTagUses : List (Argument α Value) → Fit
  | [] => .ok ()
  | .tag name _ :: rest => do
    name.fitKey
    match name, rest with
    | .text ":comparator", .string value _ _ :: _ => value.fitText
    | _, _ => .ok ()
    fitTagUses rest
  | _ :: rest => fitTagUses rest

/-- Whether what a command or test needs on its own can be told. -/
def fitNodeUses (r : Registry) (name : Value) (arguments : List (Argument α Value)) : Fit := do
  name.fitName
  if (r.leafLookup? name).isSome then fitTagUses arguments else .ok ()

/-- Whether what a command and its test need can be told. -/
def Head.fitUses (r : Registry) (h : Head α Value) : Fit := do
  fitNodeUses r h.name h.arguments
  match h.test? with
  | some t => t.fitItems fun u => fitNodeUses r u.name u.arguments
  | none => .ok ()

def Script.dataUses (r : Registry) (s : Script α Value) : Except Misfit (List String) := do
  s.walk.forM fun c => c.head.fitUses r
  return s.uses r

end MailFilter
