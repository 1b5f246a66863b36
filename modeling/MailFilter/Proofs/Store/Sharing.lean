import MailFilter.Proofs.Store.SharedTests
import MailFilter.Script.Reading

/-!
# Runs that keep tests apart

In a run, commands may get tests that others have already: before they come into a script, and by
operations.  As long as no edit makes a script share a test, no audit finds one that is shared.
-/

namespace MailFilter.Store

open Relation

variable {s s' : Store} {lost : List CommandId} {k : ScriptId} {c : CommandId}

/-! ## Steps -/

theorem Retains.testsApart (hsame : Retains s s') (h : s.Owned lost) (hk : k < s.scripts.size)
    (hapart : s.TestsApart k) : s'.TestsApart k := by
  refine hapart.mono fun c hc => .inl ?_
  rw [hsame.script k hk] at hc
  obtain ⟨hold, hlt⟩ := hsame.inside h (lt_of_owner (h.top k hk)) hc
  exact ⟨hold, by rw [testsOf, hsame.command c hlt, testsOf]⟩

theorem Appended.testsApart_new {cell : ScriptCell} (happ : Appended s s' cell) (h : s.Owned lost)
    (h' : s'.Owned lost) : s'.TestsApart s.scripts.size := by
  have hnew : ∀ c, s'.Inside (s'.script s.scripts.size).block c → s.commands.size ≤ c := by
    intro c hc
    rw [happ.script_new] at hc
    exact happ.inside_new h h' hc
  exact ⟨fun c hc => (happ.grown.tests c (hnew c hc)).nodup,
    fun c d hc hd => happ.grown.apart c d (hnew c hc) (hnew d hd)⟩

def inScripts (s : Store) (c : CommandId) : Bool :=
  (List.range s.scripts.size).any fun k => (s.walkScript k).contains c

/-- A step of a run, or arguments for a command that is in no script, as for one that is being built.
Their tests may be those of other commands. -/
inductive Action : Type 1 where
  | step (step : Step)
  | assign (c : CommandId) (arguments : List (Argument Mark Value))

def act (s : Store) : Action → Store
  | .step t => s.after t
  | .assign c arguments => if s.inScripts c then s else
      s.modifyCommand c fun cell => { cell with head := { cell.head with arguments } }

def perform (actions : List Action) : Store := actions.foldl act empty

/-- An action is an edit that succeeds and makes a script share a test. -/
def Action.shares (s : Store) (k : ScriptId) : Action → Prop
  | .step (.edit e) => e.known s ∧ (e.result s).isOk = true ∧ e.shares s k
  | _ => False

instance (s : Store) (k : ScriptId) : DecidablePred (Action.shares s k) := fun a => by
  unfold Action.shares
  split <;> infer_instance

/-- No action makes a script share a test. -/
def Careful (s : Store) : List Action → Prop
  | [] => True
  | a :: actions => (∀ k, k < s.scripts.size → ¬ a.shares s k) ∧ Careful (s.act a) actions

instance Careful.decidable : (s : Store) → (actions : List Action) → Decidable (s.Careful actions)
  | _, [] => .isTrue trivial
  | s, a :: actions =>
    have := decidable (s.act a) actions
    inferInstanceAs (Decidable ((∀ k, k < s.scripts.size → ¬ a.shares s k) ∧ _))

def Action.stranded (s : Store) : Action → List CommandId
  | .step t => t.stranded s
  | .assign _ _ => []

theorem owned_act (h : s.Owned lost) (a : Action) : (s.act a).Owned (a.stranded s ++ lost) := by
  cases a with
  | step t => exact owned_after h t
  | assign c arguments =>
      rw [act]
      split
      · exact h
      · exact h.sameLinks (sameLinks_modifyHead c fun head => { head with arguments })

def AllApart (s : Store) : Prop := ∀ k, k < s.scripts.size → s.TestsApart k

theorem allApart_act (h : s.Owned lost) (hapart : s.AllApart) {a : Action}
    (hcareful : ∀ k, k < s.scripts.size → ¬ a.shares s k) : (s.act a).AllApart := by
  intro k hk
  match a with
  | .step (@Step.script _ _ _ _ t) =>
      have happ := appended_addScript h t
      have h' := owned_addScript h t
      have hsize : k < s.scripts.size + 1 := by
        have hk : k < (s.addScript t).1.scripts.size := hk
        rwa [happ.scripts, Array.size_push] at hk
      rcases Nat.lt_succ_iff_lt_or_eq.1 hsize with hold | rfl
      · exact happ.retains.testsApart h hold (hapart k hold)
      · exact happ.testsApart_new h h'
  | .step (@Step.command _ _ _ _ t) =>
      have hext := (added_command t none h.toJoined h.lt_of_lost).ext
      have hk : k < s.scripts.size := by
        have hk : k < (s.addCommand none t).1.scripts.size := hk
        rwa [hext.scripts] at hk
      exact hext.retains.testsApart h hk (hapart k hk)
  | .step (.edit e) =>
      have hleads := leads_after (s := s) e
      have hk : k < s.scripts.size := scripts_size_leads hleads ▸ hk
      exact testsApart_leads h hk hleads (fun hknown hok hshares => hcareful k hk ⟨hknown, hok, hshares⟩)
        (hapart k hk)
  | .assign c arguments =>
      rw [act] at hk ⊢
      split at hk
      · next hin =>
          rw [if_pos hin]
          exact hapart k hk
      · next hout =>
          rw [if_neg hout]
          refine (sameLinks_modifyHead c fun head => { head with arguments }).testsApart h
            (fun d hd => ?_) (hapart k hk)
          have hne : d ≠ c := by
            rintro rfl
            refine hout (List.any_eq_true.2 ⟨k, List.mem_range.2 hk, ?_⟩)
            exact List.contains_iff_mem.2 hd
          rw [testsOf, command_modifyCommand_of_ne _ hne, testsOf]

theorem run_invariant (actions : List Action) {s : Store} {lost : List CommandId} (h : s.Owned lost) :
    (∃ lost, (actions.foldl act s).Owned lost) ∧
      (s.AllApart → s.Careful actions → (actions.foldl act s).AllApart) := by
  induction actions generalizing s lost with
  | nil => exact ⟨⟨lost, h⟩, fun hapart _ => hapart⟩
  | cons a actions ih =>
      obtain ⟨howned, hrest⟩ := ih (owned_act h a)
      exact ⟨howned, fun hapart hcareful => hrest (allApart_act h hapart hcareful.1) hcareful.2⟩

def FindsShared : Except EditError Nat → Prop
  | .error (.refused (.sharedTest _) _) => True
  | _ => False

instance : DecidablePred FindsShared := fun x => by
  unfold FindsShared
  split <;> infer_instance

theorem TestsApart.not_findsShared (h : s.TestsApart k) : ¬ FindsShared (s.audit k) := by
  intro hfound
  unfold FindsShared at hfound
  split at hfound
  · next haudit => exact defect_of_audit haudit h
  · exact hfound

/-- Tests stay apart in every run of which no edit makes a script share one, and no audit finds a shared
test then.  The next edit that succeeds makes a script share a test exactly where it is said to, and
then no audit passes. -/
theorem perform_testsApart (actions : List Action) :
    (Careful empty actions → ∀ k, k < (perform actions).scripts.size →
      (perform actions).TestsApart k ∧ ¬ FindsShared ((perform actions).audit k)) ∧
    ∀ (e : Edit) (k : ScriptId) (s' : Store), k < (perform actions).scripts.size →
      (perform actions).TestsApart k → e.known (perform actions) → e.result (perform actions) = .ok s' →
      (s'.TestsApart k ↔ ¬ e.shares (perform actions) k) ∧
      (e.shares (perform actions) k → ∀ n, s'.audit k ≠ .ok n) := by
  obtain ⟨⟨lost, howned⟩, hapart⟩ := run_invariant actions owned_empty
  refine ⟨fun hcareful k hk => ?_, fun e k s' hk hbefore hknown hok => ?_⟩
  · have hall := hapart (fun k hk => absurd hk (Nat.not_lt_zero k)) hcareful k hk
    exact ⟨hall, hall.not_findsShared⟩
  · have hiff := testsApart_result howned hk hknown hok hbefore
    refine ⟨hiff, fun hshares n haudit => ?_⟩
    exact hiff.1 (sound_of_audit haudit).1.tests hshares

/-- A run that reads two scripts, and gives the test of the first one to the command of the other. -/
def borrowing : List Action :=
  let scripts := ["if true { stop; }", "keep;"].filterMap fun text =>
    (Script.ofText text "f" .default).toOption.map fun t => Action.step (.script t)
  scripts ++ [.step (.edit (.replace 2 ((perform scripts).command 0).head.arguments (.int 64)))]

theorem perform_testsApart_borrowing : (∀ k < 2, (perform borrowing).TestsApart k) ∧
    ∃ s', (Edit.move 2 0 (.int 1) (.int 64)).result (perform borrowing) = .ok s' ∧
      ¬ s'.TestsApart 0 := by
  obtain ⟨hrun, hnext⟩ := perform_testsApart borrowing
  have hsize : (perform borrowing).scripts.size = 2 := by decide +kernel
  have hapart : ∀ k < 2, (perform borrowing).TestsApart k := fun k hk =>
    (hrun (by decide +kernel) k (hsize ▸ hk)).1
  obtain ⟨s', hok⟩ := exists_ok_of_isOk
    (show ((Edit.move 2 0 (.int 1) (.int 64)).result (perform borrowing)).isOk = true by decide +kernel)
  refine ⟨hapart, s', hok, fun hapart' => ?_⟩
  have hiff := (hnext _ 0 s' (by decide +kernel) (hapart 0 (by decide)) (by decide +kernel) hok).1
  exact hiff.1 hapart' (by decide +kernel)

/-- A command moves to a script that has a test of its own already, which an audit then finds. -/
theorem move_shares : (perform borrowing).audit 0 = .ok 2 ∧ (perform borrowing).audit 1 = .ok 1 ∧
    ∃ s', (Edit.move 2 0 (.int 1) (.int 64)).result (perform borrowing) = .ok s' ∧
      FindsShared (s'.audit 0) := by
  refine ⟨eq_ok_of_toOption (by decide +kernel), eq_ok_of_toOption (by decide +kernel), ?_⟩
  obtain ⟨s', hok⟩ := exists_ok_of_isOk
    (show ((Edit.move 2 0 (.int 1) (.int 64)).result (perform borrowing)).isOk = true by decide +kernel)
  refine ⟨s', hok, ?_⟩
  have hfound : FindsShared
      ((((Edit.move 2 0 (.int 1) (.int 64)).result (perform borrowing)).toOption.getD empty).audit 0) := by
    decide +kernel
  rwa [hok] at hfound

end MailFilter.Store
