import MailFilter.Script.Layout
import MailFilter.Script.Problem
import MailFilter.Store.Load

/-!
# Reports on stores

The canonical text of a script in a store and its problems. They are those of its tree, but for a
command that is listed twice: the capabilities of a script belong to all places of its `require`.
-/

namespace MailFilter

namespace Store

def lineup (s : Store) (k : ScriptId) : List (Bool × Command Mark Value) :=
  (s.block (s.script k).block).commands.map fun c => (s.requireOf? k == some c, s.tree c)

def text (o : LayoutOptions) (s : Store) (k : ScriptId) : Except Misfit String := do
  let cell := s.script k
  (s.scriptTree k).fitFront
  Layout.ofData o cell.capabilities (s.lineup k) (s.block cell.block).trailing

/-- Problems of commands that follow each other, with those below them down to a depth. The
`require` of the script is only checked for its place. -/
def problemsTo (s : Store) (r : Registry) (declared : List String) (require : Option CommandId) :
    Nat → Place → List CommandId → List (Problem Mark Value)
  | 0, _, _ => []
  | depth + 1, p, ids =>
    let (_, problems) := ids.foldl
      (fun (p, problems) c =>
        let h := (s.command c).head
        let own := p.problems h ++ if require == some c then [] else h.ownProblems r declared
        let below := s.problemsTo r declared require depth (.front false) (s.children c)
        (p.after h, problems ++ own ++ below))
      (p, [])
    problems

/-- Whether commands can be checked, with those below them down to a depth. -/
def fitTo (s : Store) (r : Registry) (require : Option CommandId) : Nat → CommandId → Fit
  | 0, _ => .ok ()
  | depth + 1, c => do
    let h := (s.command c).head
    h.name.fitName
    if require == some c then .ok () else h.fitOwn r
    (s.children c).forM (s.fitTo r require depth)

def problems (r : Registry) (s : Store) (k : ScriptId) :
    Except Misfit (List (Problem Mark Value)) := do
  let tree := s.scriptTree k
  let ids := (s.block (s.script k).block).commands
  fitDeclared tree.capabilities (tree.commands.map Command.head)
  ids.forM (s.fitTo r (s.requireOf? k) (s.commands.size + 1))
  return tree.serverProblems r ++
    s.problemsTo r tree.declared (s.requireOf? k) (s.commands.size + 1) (.front true) ids

end Store

end MailFilter
