import MailFilter.Proofs.Store.Loading
import MailFilter.Proofs.Store.Operations

/-!
# Runs

Trees are put into a store and edited there, in any order.  An operation that fails leaves the store as
it is in most cases, and so does an operation on what is not in the store.  But a move to an index that
is a floating point number takes the command out of its block, and the command still names the block
then.  Every run leaves commands and blocks with one owner, apart from the commands that were lost in
this way.
-/

namespace MailFilter.Store

open Relation

variable {s s' : Store} {lost : List CommandId}

/-- An operation and what it is given. -/
inductive Edit where
  | insert (b : BlockId) (index : Value) (c : CommandId) (limit : Value)
  | append (b : BlockId) (c : CommandId) (limit : Value)
  | remove (c : CommandId)
  | replace (c : CommandId) (arguments : List (Argument Mark Value)) (limit : Value)
  | move (c : CommandId) (b : BlockId) (index limit : Value)
  | declare (k : ScriptId) (name : String)
  | requireAll (r : Registry) (k : ScriptId)
  | nameRule (c : CommandId) (name : Option Value)

namespace Edit

/-- The commands, blocks and scripts that an operation is about are in the store. -/
def known (s : Store) : Edit → Prop
  | insert b _ c _ | append b c _ | move c b _ _ => b < s.blocks.size ∧ c < s.commands.size
  | remove c | replace c _ _ | nameRule c _ => c < s.commands.size
  | declare k _ | requireAll _ k => k < s.scripts.size

instance (s : Store) : DecidablePred (known s) := fun e => by
  cases e <;> unfold known <;> infer_instance

def limit? : Edit → Option Value
  | insert _ _ _ limit | append _ _ limit | replace _ _ limit | move _ _ _ limit => some limit
  | remove _ | declare _ _ | requireAll _ _ | nameRule _ _ => none

def arguments : Edit → List (Argument Mark Value)
  | replace _ arguments _ => arguments
  | _ => []

/-- The store that an operation gives, or its error and the store that is left. -/
def result (s : Store) : Edit → Except Failure Store
  | insert b index c limit => s.leaving (s.insert b index c limit)
  | append b c limit => s.leaving (s.append b c limit)
  | remove c => s.leaving (s.remove c)
  | replace c arguments limit => s.leaving (s.replace c arguments limit)
  | move c b index limit => s.move c b index limit
  | declare k name => (·.2) <$> s.leaving (s.declare k name)
  | requireAll r k => (·.2) <$> s.requireAll r k
  | nameRule c name => s.leaving (s.nameRule c name)

/-- The store after an operation, whether it fails or not. -/
def left (s : Store) (e : Edit) : Store :=
  match e.result s with
  | .ok s' => s'
  | .error f => f.store

end Edit

/-- One step of a run: a tree that comes into the store, or an operation. -/
inductive Step : Type 1 where
  | script {α τ : Type} [Located α] [Leaf τ] (t : Script α τ)
  | command {α τ : Type} [Located α] [Leaf τ] (t : Command α τ)
  | edit (e : Edit)

def after (s : Store) : Step → Store
  | @Step.script _ _ _ _ t => (s.addScript t).1
  | @Step.command _ _ _ _ t => (s.addCommand none t).1
  | .edit e => if e.known s then e.left s else s

def run (steps : List Step) : Store := steps.foldl after empty

/-! ## Ways of an operation -/

theorem ok_of_declare_result {k : ScriptId} {name : String}
    (hok : (Edit.declare k name).result s = .ok s') : ∃ added, s.declare k name = .ok (added, s') := by
  obtain ⟨⟨added, s₁⟩, hdeclare, rfl⟩ := Lexeme.map_ok hok
  exact ⟨added, leaving_eq_ok.1 hdeclare⟩

theorem declared_of_result {r : Registry} {k : ScriptId}
    (hok : (Edit.requireAll r k).result s = .ok s') : Declared k s s' := by
  obtain ⟨⟨_, s₁⟩, hrequire, rfl⟩ := Lexeme.map_ok hok
  exact declared_of_requireAll hrequire

/-- Which stores an operation may lead to.  One that fails leaves the store as it is, unless a move takes
its command out of a block, or some of several names have been declared. -/
inductive Edit.Leads (s : Store) : Edit → Store → Prop where
  | same (e : Edit) : Leads s e s
  | ok {e : Edit} {s' : Store} (hknown : e.known s) (hok : e.result s = .ok s') : Leads s e s'
  | stranded {c : CommandId} {source b : BlockId} {index limit : Value}
      (hparent : (s.command c).parent = some source) (hmem : c ∈ (s.block source).commands)
      (hkeeps : s.isRequireOf source c = false) : Leads s (.move c b index limit) (s.unlist source c)
  | declared {r : Registry} {k : ScriptId} {s' : Store} (hk : k < s.scripts.size)
      (hall : Declared k s s') : Leads s (.requireAll r k) s'

theorem store_of_leaving {x : Except EditError Store} {f : Failure} (hfail : s.leaving x = .error f) :
    f.store = s :=
  (leaving_eq_error.1 hfail).2

theorem leads_after (e : Edit) : e.Leads s (s.after (.edit e)) := by
  rw [after]
  split
  · next hknown =>
      unfold Edit.left
      split
      · next s' hok => exact .ok hknown hok
      · next f hfail =>
          have hsame : f.store = s → e.Leads s f.store := fun hs => hs.symm ▸ .same e
          cases e with
          | insert | append | remove | replace | nameRule => exact hsame (store_of_leaving hfail)
          | declare k name =>
              exact hsame (leaving_eq_error.1 (map_eq_error.1 hfail)).2
          | move c b index limit =>
              rcases store_of_move hfail with ⟨hs, -⟩ | ⟨-, source, hparent, hmem, hkeeps, hs⟩
              · exact hsame hs
              · exact hs ▸ .stranded hparent hmem hkeeps
          | requireAll r k =>
              exact .declared hknown (declared_of_requireAll_error (map_eq_error.1 hfail))
  · exact .same e

/-- An operation that succeeds keeps one owner. -/
theorem owned_result {e : Edit} (h : s.Owned lost) (hknown : e.known s)
    (hok : e.result s = .ok s') : s'.Owned lost := by
  cases e with
  | insert b index c limit => exact owned_insert h hknown.1 hknown.2 (leaving_eq_ok.1 hok)
  | append b c limit => exact owned_insert h hknown.1 hknown.2 (leaving_eq_ok.1 hok)
  | remove c => exact owned_remove h (leaving_eq_ok.1 hok)
  | replace c arguments limit => exact owned_replace h (leaving_eq_ok.1 hok)
  | move c b index limit => exact owned_move h hknown.1 hok
  | declare k name =>
      obtain ⟨added, hdeclare⟩ := ok_of_declare_result hok
      exact owned_declare h hknown hdeclare
  | requireAll r k => exact owned_declared h hknown (declared_of_result hok)
  | nameRule c name => exact owned_nameRule h (leaving_eq_ok.1 hok)

theorem scripts_size_result {e : Edit} (hok : e.result s = .ok s') :
    s'.scripts.size = s.scripts.size := by
  have hinsert : ∀ {b index c limit}, s.insert b index c limit = .ok s' →
      s'.scripts.size = s.scripts.size := by
    intro b index c limit hok
    obtain ⟨i, -, rfl⟩ := insert_ok hok
    cases (s.command c).block <;> rfl
  cases e with
  | insert b index c limit => exact hinsert (leaving_eq_ok.1 hok)
  | append b c limit => exact hinsert (leaving_eq_ok.1 hok)
  | remove c =>
      obtain ⟨b, -, -, rfl⟩ := remove_ok (leaving_eq_ok.1 hok)
      exact (sameLinks_forget b c).size
  | replace c arguments limit =>
      obtain ⟨-, rfl⟩ := replace_ok (leaving_eq_ok.1 hok)
      rfl
  | move c b index limit =>
      obtain ⟨source, i, -, rfl⟩ := move_ok hok
      rfl
  | declare k name =>
      obtain ⟨added, hdeclare⟩ := ok_of_declare_result hok
      exact scripts_size_declare hdeclare
  | requireAll r k => exact scripts_size_declared (declared_of_result hok)
  | nameRule c name =>
      obtain ⟨comments, -, rfl⟩ := nameRule_ok (leaving_eq_ok.1 hok)
      rfl

theorem scripts_size_leads {e : Edit} (hleads : e.Leads s s') : s'.scripts.size = s.scripts.size := by
  cases hleads with
  | same => rfl
  | ok _ hok => exact scripts_size_result hok
  | stranded => rfl
  | declared _ hall => exact scripts_size_declared hall

/-! ## Lost commands -/

/-- The commands that a step strands: one of a move that takes it out of its block and then fails. -/
def Step.stranded (s : Store) : Step → List CommandId
  | .edit (.move c b index limit) =>
    if (Edit.move c b index limit).known s ∧ s.Strands c b index limit then [c] else []
  | _ => []

/-- The commands that are stranded by the steps after a store. -/
def strandedAfter (s : Store) : List Step → List CommandId
  | [] => []
  | t :: ts => strandedAfter (s.after t) ts ++ t.stranded s

/-- The commands that are stranded in a run. -/
def stranded (steps : List Step) : List CommandId := strandedAfter empty steps

theorem Edit.Leads.owned {e : Edit} (h : s.Owned lost) (hleads : e.Leads s s') :
    s'.Owned lost ∨ ∃ c b index limit, e = .move c b index limit ∧ s'.Owned (c :: lost) := by
  cases hleads with
  | same => exact .inl h
  | ok hknown hok => exact .inl (owned_result h hknown hok)
  | stranded _ hmem _ => exact .inr ⟨_, _, _, _, rfl, h.unlist hmem⟩
  | declared hk hall => exact .inl (owned_declared h hk hall)

theorem exists_owned_leads {e : Edit} (h : s.Owned lost) (hleads : e.Leads s s') :
    ∃ lost, s'.Owned lost := by
  rcases hleads.owned h with hkept | ⟨c, _, _, _, -, hlost⟩
  · exact ⟨lost, hkept⟩
  · exact ⟨c :: lost, hlost⟩

/-- A move loses its command exactly if it strands it. -/
theorem owned_move_left {c : CommandId} {b : BlockId} {index limit : Value} (h : s.Owned lost)
    (hknown : (Edit.move c b index limit).known s) : ((Edit.move c b index limit).left s).Owned
      ((if s.Strands c b index limit then [c] else []) ++ lost) := by
  unfold Edit.left
  split
  · next s' hok =>
      have hplace : ¬ s.Strands c b index limit := fun ⟨_, _, _, _, hfraction⟩ => by
        obtain ⟨_, i, hchecked, -⟩ := move_ok hok
        rw [hchecked.place] at hfraction
        cases hfraction
      rw [if_neg hplace]
      exact owned_result h hknown hok
  · next f hfail =>
      rcases store_of_move hfail with ⟨hs, hkept⟩ | ⟨hstrands, source, -, hmem, -, hs⟩
      · rw [hs, if_neg hkept]
        exact h
      · rw [hs, if_pos hstrands]
        exact h.unlist hmem

/-- A step keeps one owner, apart from what it strands. -/
theorem owned_after (h : s.Owned lost) (step : Step) :
    (s.after step).Owned (step.stranded s ++ lost) := by
  match step with
  | @Step.script _ _ _ _ t => exact owned_addScript h t
  | @Step.command _ _ _ _ t => exact owned_addCommand h t
  | .edit (.move c b index limit) =>
      rw [after, Step.stranded]
      by_cases hknown : (Edit.move c b index limit).known s
      · simp only [hknown, true_and, if_true]
        exact owned_move_left h hknown
      · simp only [hknown, false_and, if_false]
        exact h
  | .edit (.insert ..) | .edit (.append ..) | .edit (.remove ..) | .edit (.replace ..)
  | .edit (.declare ..) | .edit (.requireAll ..) | .edit (.nameRule ..) =>
      rcases (leads_after _).owned h with hkept | ⟨_, _, _, _, hmove, -⟩
      · exact hkept
      · cases hmove

theorem owned_run (steps : List Step) : (run steps).Owned (stranded steps) := by
  have hfold : ∀ (steps : List Step) (s : Store) (lost : List CommandId), s.Owned lost →
      (steps.foldl after s).Owned (s.strandedAfter steps ++ lost) := by
    intro steps
    induction steps with
    | nil => exact fun _ _ h => h
    | cons step steps ih =>
        intro s lost h
        rw [strandedAfter, List.append_assoc]
        exact ih _ _ (owned_after h step)
  have hrun := hfold steps empty [] owned_empty
  rwa [List.append_nil] at hrun

/-- Every command and every block has one owner, but for the commands that are lost: they name a block,
but no block lists them. -/
structure OneOwner (s : Store) (lost : List CommandId) : Prop where
  /-- No block lists a command twice. -/
  once : ∀ b, (s.block b).commands.Nodup
  /-- No two blocks list the same command. -/
  apart : ∀ c b b', c ∈ (s.block b).commands → c ∈ (s.block b').commands → b = b'
  /-- A command names the block that lists it. -/
  parent : ∀ c b, (s.command c).parent = some b ∧ c ∉ lost ↔ c ∈ (s.block b).commands
  /-- A command that names no block is in none. -/
  detached : ∀ c, (s.command c).parent = none ↔ c ∉ lost ∧ ∀ b, c ∉ (s.block b).commands
  /-- The block of a command belongs to it. -/
  block : ∀ c b, (s.command c).block = some b → (s.block b).owner = some (.command c)
  /-- The top block of a script belongs to it. -/
  script : ∀ k, k < s.scripts.size → (s.block (s.script k).block).owner = some (.script k)
  /-- No command is below itself. -/
  acyclic : ∀ c, ¬ TransGen s.Below c c

theorem Owned.oneOwner (h : s.Owned lost) : s.OneOwner lost := by
  refine ⟨h.nodup, fun c b b' => h.block_unique, fun c b => (h.listed c b).symm, fun c => ?_, h.own,
    h.top, h.acyclic⟩
  constructor
  · intro hnone
    refine ⟨h.not_lost hnone, fun b hc => ?_⟩
    rw [h.parent_of_mem hc] at hnone
    cases hnone
  · rintro ⟨hkept, hout⟩
    cases hparent : (s.command c).parent with
    | none => rfl
    | some b => exact absurd ((h.listed c b).2 ⟨hparent, hkept⟩) (hout b)

theorem OneOwner.eq_nil (h : s.OneOwner lost) (hall : s.OneOwner []) : lost = [] := by
  refine List.eq_nil_iff_forall_not_mem.2 fun c hc => ?_
  cases hparent : (s.command c).parent with
  | none => exact ((h.detached c).1 hparent).1 hc
  | some b =>
      have hmem := (hall.parent c b).1 ⟨hparent, List.not_mem_nil⟩
      exact ((h.parent c b).2 hmem).2 hc

/-- Every run leaves commands and blocks with one owner, whatever is tried in it, apart from the commands
that a move has stranded.  So all have one exactly if no step strands one. -/
theorem run_oneOwner (steps : List Step) :
    (run steps).OneOwner (stranded steps) ∧ ((run steps).OneOwner [] ↔ stranded steps = []) := by
  have h := (owned_run steps).oneOwner
  exact ⟨h, h.eq_nil, fun hnone => hnone ▸ h⟩

/-- A run that moves the first of two commands to the place that the number 1.0 tells. -/
def stranding : List Step :=
  [.script (⟨⟨[.simple ⟨"keep", [], [], .nowhere⟩, .simple ⟨"stop", [], [], .nowhere⟩], [], .nowhere⟩,
      [], "f", .nowhere⟩ : Script),
    .edit (.move 0 0 (.float (.ofDecimal false 1 0)) (.int 64))]

/-- The command names the block, but is not in it any more. -/
theorem not_oneOwner_stranding : ((run stranding).command 0).parent = some 0 ∧
    ((run stranding).block 0).commands = [1] ∧ ¬ (run stranding).OneOwner [] := by
  have hparent : ((run stranding).command 0).parent = some 0 := by decide +kernel
  have hlist : ((run stranding).block 0).commands = [1] := by decide +kernel
  refine ⟨hparent, hlist, fun h => ?_⟩
  have hmem := (h.parent 0 0).1 ⟨hparent, List.not_mem_nil⟩
  rw [hlist] at hmem
  cases hmem with
  | tail _ hmem => cases hmem

end MailFilter.Store
