import MailFilter.Proofs.Store.RequireFirst
import MailFilter.Script.Reading

/-!
# Audits after edits

When an audit of a script that was in order blames its `require` after an edit.  Inserting and moving
look at the command itself but not at what is below it, and replacing looks at the `require` that leads
the script but not at one that loses its arguments elsewhere.
-/

namespace MailFilter.Store

def Blames : Except EditError Nat → Prop
  | .error (.refused reason _) => reason.invariant = .requireFirst
  | _ => False

instance : DecidablePred Blames
  | .error (.refused reason _) => inferInstanceAs (Decidable (reason.invariant = .requireFirst))
  | .error (.tooDeep _) | .error (.misfit _) | .ok _ => inferInstanceAs (Decidable False)

theorem not_blames_of_finds {good : Nat → Prop} {x : Except EditError Nat}
    (hx : Finds False good x) : ¬ Blames x := by
  intro hblames
  match x, hx with
  | .error _, .shared test command => cases hblames

/-- After an edit that succeeds in a run, an audit that found nothing before blames the `require` of
the script only if the edit misplaces one.  It then comes upon it, unless something else is in its
way: a value that does not fit, or a test that two commands share. -/
theorem audit_result (steps : List Step) {e : Edit} {k : ScriptId} {n : Nat} {s' : Store}
    (hk : k < (run steps).scripts.size) (haudit : (run steps).audit k = .ok n)
    (hknown : e.known (run steps)) (hok : e.result (run steps) = .ok s') :
    (¬ e.misplaces (run steps) k → ¬ Blames (s'.audit k)) ∧
    (e.misplaces (run steps) k →
      (∃ c ∈ s'.walkScript k, (s'.command c).head.isBareRequire = true ∧
        (s'.block (s'.script k).block).commands.head? ≠ some c) ∧
      (Blames (s'.audit k) ∨ (∃ m, s'.audit k = .error (.misfit m)) ∨
        ∃ test command, s'.audit k = .error (.refused (.sharedTest test) command))) := by
  have h := owned_run steps
  have hfirst : (run steps).RequireFirst k := by
    have hfound := finds_audit h hk
    rwa [haudit] at hfound
  have hkeeps := keeps_result h hk hknown hok hfirst
  have hfound := finds_audit (owned_result h hknown hok) (scripts_size_result hok ▸ hk)
  constructor
  · intro hplace
    exact not_blames_of_finds (hfound.mono fun hwrong => hwrong (hkeeps.first hplace))
  · intro hplace
    have hfront := hkeeps.front hplace
    refine ⟨by simpa [OnlyFront] using hfront, ?_⟩
    revert hfound
    cases s'.audit k with
    | ok n => exact fun hfirst' => absurd hfirst'.front hfront
    | error err =>
        intro hfound
        cases hfound with
        | misfit m => exact .inr (.inl ⟨m, rfl⟩)
        | shared test command => exact .inr (.inr ⟨test, command, rfl⟩)
        | front _ hreason command => exact .inl hreason

/-- A run that reads a script with two `require`s, and takes a command that is in no script. -/
def twoRequires : List Step :=
  ((Script.ofText "require \"a\"; require \"b\";" "f" .default).toOption.toList.map fun t => .script t) ++
    [.command (.simple ⟨"stop", [], [], .nowhere⟩ : Command)]

theorem audit_twoRequires : (run twoRequires).audit 0 = .ok 2 :=
  eq_ok_of_toOption (by decide +kernel)

theorem audit_result_stop : ∃ s',
    (Edit.append 0 2 (.int 64)).result (run twoRequires) = .ok s' ∧ ¬ Blames (s'.audit 0) := by
  obtain ⟨s', hok⟩ := exists_ok_of_isOk
    (show ((Edit.append 0 2 (.int 64)).result (run twoRequires)).isOk = true by decide +kernel)
  refine ⟨s', hok, ?_⟩
  refine (audit_result twoRequires (by decide +kernel) audit_twoRequires (by decide +kernel) hok).1 ?_
  rintro ⟨-, d, hd, hbare⟩
  have hnone : ∀ d ∈ (run twoRequires).walk 2,
      ((run twoRequires).command d).head.isBareRequire = false := by decide +kernel
  rw [hnone d hd] at hbare
  cases hbare

/-- The second `require` of a script may lose its arguments, which an audit then blames. -/
theorem replace_blamed : (run twoRequires).audit 0 = .ok 2 ∧ ∃ s',
    (Edit.replace 1 [] (.int 64)).result (run twoRequires) = .ok s' ∧ Blames (s'.audit 0) := by
  refine ⟨audit_twoRequires, ?_⟩
  obtain ⟨s', hok⟩ := exists_ok_of_isOk
    (show ((Edit.replace 1 [] (.int 64)).result (run twoRequires)).isOk = true by decide +kernel)
  refine ⟨s', hok, ?_⟩
  have hblames : Blames
      ((((Edit.replace 1 [] (.int 64)).result (run twoRequires)).toOption.getD empty).audit 0) := by
    decide +kernel
  rwa [hok] at hblames

end MailFilter.Store
