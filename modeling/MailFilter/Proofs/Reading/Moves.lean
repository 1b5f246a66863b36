import MailFilter.Proofs.Reading.Steps
import MailFilter.Proofs.Result

/-!
# What one token does

A reader takes a token in one of eleven ways, or not at all.  Which way it is tells what was being read,
what the token is, and what is being read afterwards.
-/

namespace MailFilter.Reading

/-- What a phase comes to where neither an argument nor a test goes on. -/
def Phase.finished : Phase → Phase
  | .arguments head => .ended head
  | phase => settle phase

/-- A token leads from a state to another one. -/
inductive Moves (o : ReadOptions) (s : State) (t : Token) : State → Prop
  | comment (text : String) (ht : t.item = .comment text) :
    Moves o s t { s with pending := s.pending ++ [⟨text, t.pos⟩] }
  | command (name : String) (hat : s.phase = .statement) (ht : t.item = .identifier name) :
    Moves o s t { s with
      pending := []
      phase := .arguments ⟨Keyword.normalName name, [], s.pending, t.pos⟩ }
  | closeBrace (f : Frame) (frames : List Frame) (hat : s.phase = .statement)
      (hframes : s.frames = f :: frames) (ht : t.item = .closeBrace) :
    Moves o s t
      ⟨[], frames, f.before ++ [.control f.head s.commands s.pending f.opening], .statement⟩
  | argument (head : Head Pos) (a : Argument Pos) (hat : s.phase = .arguments head)
      (ht : argument? t = some (.ok a)) :
    Moves o s t { s with phase := .arguments { head with arguments := head.arguments ++ [a] } }
  | testArgument (head : Head Pos) (holders : List Holder) (test : OpenTest) (a : Argument Pos)
      (hat : s.phase = .testArguments head holders test) (ht : argument? t = some (.ok a)) :
    Moves o s t { s with
      phase := .testArguments head holders { test with arguments := test.arguments ++ [a] } }
  | test (head : Head Pos) (holders : List Holder) (name : String) (hat : Opens head s.phase holders)
      (ht : t.item = .identifier name)
      (hdepth : checkDepth o (testDepth s.frames holders) t.pos = .ok ()) :
    Moves o s t { s with phase := .testArguments head holders ⟨Keyword.normalName name, [], t.pos⟩ }
  | openParen (head : Head Pos) (holders : List Holder) (test : OpenTest)
      (hat : s.phase = .testArguments head holders test) (ht : t.item = .openParen) :
    Moves o s t { s with phase := .testName head holders ⟨test, [], t.pos⟩ }
  | comma (head : Head Pos) (holders : List Holder) (list : OpenList)
      (hat : s.phase.finished = .testEnd head holders list) (ht : t.item = .comma) :
    Moves o s t { s with phase := .testName head holders list }
  | closeParen (head : Head Pos) (holders : List Holder) (list : OpenList)
      (hat : s.phase.finished = .testEnd head holders list) (ht : t.item = .closeParen) :
    Moves o s t { s with phase := closeTest head (list.parent.close list.tests) holders }
  | semicolon (head : Head Pos) (hat : s.phase.finished = .ended head) (ht : t.item = .semicolon)
      (hname : o.registry.isControl? head.name ≠ some true) :
    Moves o s t (push s (.simple head))
  | openBrace (head : Head Pos) (hat : s.phase.finished = .ended head) (ht : t.item = .openBrace)
      (hname : o.registry.isControl? head.name ≠ some false)
      (hdepth : checkDepth o (s.frames.length + 1) t.pos = .ok ()) :
    Moves o s t ⟨s.pending, ⟨head, t.pos, s.commands⟩ :: s.frames, [], .statement⟩

variable {o : ReadOptions} {s s' : State} {t : Token} {head : Head Pos} {holders : List Holder}

/-! ## What a step does -/

theorem moves_of_openTest {name : String} (hat : Opens head s.phase holders)
    (ht : t.item = .identifier name) (h : openTest o s head holders name t.pos = .ok s') :
    Moves o s t s' := by
  obtain ⟨_, hdepth, h⟩ := ok_of_bind h
  cases h
  exact .test head holders name hat ht hdepth

theorem moves_of_stepStatement (hat : s.phase = .statement) (h : stepStatement s t = .ok s') :
    Moves o s t s' := by
  unfold stepStatement at h
  split at h
  · next name ht =>
      cases h
      exact .command name hat ht
  · next ht =>
      split at h
      · cases h
      · next f frames hframes =>
          cases h
          exact .closeBrace f frames hat hframes ht
  · cases h

theorem moves_of_stepEnd (hat : s.phase.finished = .ended head) (h : stepEnd o s head t = .ok s') :
    Moves o s t s' := by
  unfold stepEnd at h
  split at h
  · next ht =>
      split at h
      · cases h
      · next hname =>
          cases h
          exact .semicolon head hat ht (by simpa using hname)
  · next ht =>
      split at h
      · cases h
      · next hname =>
          obtain ⟨_, hdepth, h⟩ := ok_of_bind h
          cases h
          exact .openBrace head hat ht (by simpa using hname) hdepth
  · cases h

theorem moves_of_stepTestEnd {list : OpenList} (hat : s.phase.finished = .testEnd head holders list)
    (h : stepTestEnd s head holders list t = .ok s') : Moves o s t s' := by
  unfold stepTestEnd at h
  split at h
  · next ht =>
      cases h
      exact .comma head holders list hat ht
  · next ht =>
      cases h
      exact .closeParen head holders list hat ht
  · cases h

theorem moves_of_step (h : step o s t = .ok s') : Moves o s t s' := by
  unfold step at h
  split at h
  · next text ht =>
      cases h
      exact .comment text ht
  split at h
  · next hat => exact moves_of_stepStatement hat h
  · next head hat =>
      split at h
      · next a ha =>
          obtain ⟨a, rfl, h⟩ := ok_of_bind h
          cases h
          exact .argument head a hat ha
      split at h
      · next name ht => exact moves_of_openTest (hat ▸ .command) ht h
      · cases h
      · exact moves_of_stepEnd (by rw [hat]; rfl) h
  · next head holders test hat =>
      split at h
      · next a ha =>
          obtain ⟨a, rfl, h⟩ := ok_of_bind h
          cases h
          exact .testArgument head holders test a hat ha
      split at h
      · next name ht => exact moves_of_openTest (hat ▸ .single holders test) ht h
      · next ht =>
          cases h
          exact .openParen head holders test hat ht
      · rcases closeTest_cases head (test.close []) holders with ⟨head', hclosed⟩ | ⟨outer, list, hclosed⟩
        · rw [hclosed] at h
          exact moves_of_stepEnd (by rw [hat]; exact hclosed) h
        · rw [hclosed] at h
          exact moves_of_stepTestEnd (by rw [hat]; exact hclosed) h
  · next head holders list hat =>
      split at h
      · next name ht => exact moves_of_openTest (hat ▸ .list holders list) ht h
      · split at h <;> cases h
      · cases h
  · next hstatement harguments htest hname =>
      cases hat : s.phase with
      | testEnd head holders list =>
          rw [hat] at h
          exact moves_of_stepTestEnd (by rw [hat]; rfl) h
      | ended head =>
          rw [hat] at h
          exact moves_of_stepEnd (by rw [hat]; rfl) h
      | statement => exact absurd hat hstatement
      | arguments head => exact absurd hat (harguments head)
      | testArguments head holders test => exact absurd hat (htest head holders test)
      | testName head holders list => exact absurd hat (hname head holders list)

/-! ## What leads on is a step -/

theorem step_sign {item : Item}
    (hitem : item = .comma ∨ item = .closeParen ∨ item = .semicolon ∨ item = .openBrace)
    (hphase : IsClosing s.phase.finished) (ht : t.item = item) :
    step o s t = stepClosed o s t s.phase.finished := by
  obtain ⟨pending, frames, commands, phase⟩ := s
  obtain ⟨_, p⟩ := t
  subst ht
  cases phase with
  | statement | testName => exact hphase.elim
  | arguments head => rcases hitem with h | h | h | h <;> cases h <;> rfl
  | testArguments | testEnd | ended =>
      refine step_close (s := ⟨pending, frames, commands, .statement⟩) ?_ hitem p
      exact True.intro

theorem step_openBrace (hat : s.phase.finished = .ended head) (ht : t.item = .openBrace)
    (hname : o.registry.isControl? head.name ≠ some false) :
    step o s t = (checkDepth o (s.frames.length + 1) t.pos >>= fun _ =>
      .ok ⟨s.pending, ⟨head, t.pos, s.commands⟩ :: s.frames, [], .statement⟩) := by
  rw [step_sign (.inr (.inr (.inr rfl))) (hat ▸ trivial) ht, hat, stepClosed, stepEnd, ht]
  exact if_neg (by simpa using hname)

theorem step_of_moves (h : Moves o s t s') : step o s t = .ok s' := by
  cases h with
  | comment text ht => simp only [step, ht]
  | command name hat ht => simp only [step, ht, hat, stepStatement]
  | closeBrace f frames hat hframes ht => simp only [step, ht, hat, stepStatement, hframes]
  | argument head a hat ht =>
      obtain ⟨pending, frames, commands, phase⟩ := s
      cases hat
      exact step_arguments ht ⟨pending, frames, commands, .statement⟩ head
  | testArgument head holders test a hat ht =>
      obtain ⟨pending, frames, commands, phase⟩ := s
      cases hat
      exact step_testArguments ht ⟨pending, frames, commands, .statement⟩ head holders test
  | test head holders name hat ht hdepth =>
      rw [step_identifier hat ht, openTest, hdepth]
      rfl
  | openParen head holders test hat ht => simp only [step, ht, hat, argument?]
  | comma head holders list hat ht =>
      rw [step_sign (.inl rfl) (hat ▸ trivial) ht, hat, stepClosed, stepTestEnd, ht]
  | closeParen head holders list hat ht =>
      rw [step_sign (.inr (.inl rfl)) (hat ▸ trivial) ht, hat, stepClosed, stepTestEnd, ht]
  | semicolon head hat ht hname =>
      rw [step_sign (.inr (.inr (.inl rfl))) (hat ▸ trivial) ht, hat, stepClosed, stepEnd, ht]
      exact if_neg (by simpa using hname)
  | openBrace head hat ht hname hdepth =>
      rw [step_openBrace hat ht hname, hdepth]
      rfl

/-! ## Runs -/

/-- A run ends at its first token, or goes on from where that token leads. -/
theorem cases_of_run {ts : List Token} {b : Block} (h : run o s (t :: ts) = .ok b) :
    (t.item = .endOfInput ∧ finish s (some t.pos) = .ok b) ∨
      ∃ s', Moves o s t s' ∧ run o s' ts = .ok b := by
  rw [run] at h
  split at h
  · next hend => exact .inl ⟨beq_iff_eq.mp hend, h⟩
  · obtain ⟨s', hstep, h⟩ := ok_of_bind h
    exact .inr ⟨s', moves_of_step hstep, h⟩

/-- A reader that takes every token that another one takes reads all that the other one reads. -/
theorem run_mono {o' : ReadOptions} (hmoves : ∀ {s t s'}, Moves o s t s' → Moves o' s t s')
    {ts : List Token} {b : Block} (h : run o s ts = .ok b) : run o' s ts = .ok b := by
  induction ts generalizing s with
  | nil => exact h
  | cons t ts ih =>
      rw [run] at h ⊢
      split at h
      · next hend => rwa [if_pos hend]
      · next hend =>
          obtain ⟨s', hstep, h⟩ := ok_of_bind h
          rw [if_neg hend, step_of_moves (hmoves (moves_of_step hstep))]
          exact ih h

end MailFilter.Reading
