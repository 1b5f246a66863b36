import MailFilter.Proofs.Reading.Invariant

/-!
# The shape of what is read

Whatever commands a reader knows and however deep it may go, a command that it has read has one test
at most, only tests stand inside a test, and capabilities have a `require` that they belong to.
-/

namespace MailFilter

variable {α τ : Type}

/-- Only tests stand inside a test. -/
def Test.Whole (t : Test α τ) : Prop := ∀ a ∈ t.items, a.test?.isSome = true

/-- A command has one test at most, and only tests stand inside that. -/
structure Head.OneTest (h : Head α τ) : Prop where
  one : h.tests.length ≤ 1
  whole : ∀ t ∈ h.tests, t.Whole

/-- What every script that was read has in common. -/
structure Script.Shaped [Leaf τ] (s : Script α τ) : Prop where
  heads : ∀ c ∈ s.walk, c.head.OneTest
  held : s.capabilities ≠ [] → s.requireHead?.isSome = true

theorem Command.walkAll_append (cs ds : List (Command α τ)) :
    walkAll (cs ++ ds) = walkAll cs ++ walkAll ds := by
  induction cs with
  | nil => rfl
  | cons c cs ih => rw [List.cons_append, walkAll, walkAll, ih, List.append_assoc]

theorem Test.itemsOf_map_test (ts : List (Test α τ)) :
    itemsOf (ts.map .test) = ts.flatMap items := by
  induction ts with
  | nil => rw [List.map_nil, itemsOf, List.flatMap_nil]
  | cons t ts ih => rw [List.map_cons, itemsOf, ih, List.flatMap_cons]

theorem Head.OneTest.of_nil {h : Head α τ} (hnil : h.tests = []) : h.OneTest :=
  ⟨by rw [hnil]; exact Nat.zero_le 1, by simp [hnil]⟩

namespace Reading

variable {o : ReadOptions} {s s' : State} {head : Head Pos} {holders : List Holder} {t : Token}

/-! ## The invariant -/

def WholeHolders (holders : List Holder) : Prop :=
  ∀ l, .list l ∈ holders → ∀ t ∈ l.tests, t.Whole

def CommandsShaped (cs : List Command) : Prop :=
  ∀ c ∈ Command.walkAll cs, c.head.OneTest

/-- How far the command at hand has come: only a finished one has its test. -/
def PhaseShaped : Phase → Prop
  | .statement => True
  | .arguments head => head.tests = []
  | .testArguments head holders _ => head.tests = [] ∧ WholeHolders holders
  | .testName head holders list | .testEnd head holders list =>
    head.tests = [] ∧ WholeHolders (.list list :: holders)
  | .ended head => head.OneTest

structure State.Shaped (s : State) : Prop where
  frames : ∀ f ∈ s.frames, f.head.OneTest ∧ CommandsShaped f.before
  commands : CommandsShaped s.commands
  phase : PhaseShaped s.phase

theorem CommandsShaped.concat {cs : List Command} {c : Command} (hcs : CommandsShaped cs)
    (hc : CommandsShaped [c]) : CommandsShaped (cs ++ [c]) := by
  unfold CommandsShaped at *
  rw [Command.walkAll_append, List.forall_mem_append]
  exact ⟨hcs, hc⟩

theorem commandsShaped_simple (h : head.OneTest) : CommandsShaped [.simple head] := by
  unfold CommandsShaped
  rw [Command.walkAll, Command.walk, Command.walkAll, List.append_nil, List.forall_mem_singleton]
  exact h

theorem commandsShaped_control {cs : List Command} {trailing : List Comment} {opening : Pos}
    (h : head.OneTest) (hcs : CommandsShaped cs) :
    CommandsShaped [.control head cs trailing opening] := by
  unfold CommandsShaped at *
  rw [Command.walkAll, Command.walk, Command.walkAll, List.append_nil, List.forall_mem_cons]
  exact ⟨h, hcs⟩

/-! ## Tests -/

theorem OpenTest.whole_close (test : OpenTest) {ts : List (Test Pos)} (hts : ∀ t ∈ ts, t.Whole) :
    (test.close ts).Whole := by
  intro a ha
  rw [OpenTest.close, Test.items, Test.itemsOf_map_test, List.mem_cons, List.mem_flatMap] at ha
  rcases ha with rfl | ⟨t, ht, ha⟩
  · rfl
  · exact hts t ht a ha

theorem test?_of_argument {a : Argument Pos} (h : argument? t = some (.ok a)) : a.test? = none := by
  obtain ⟨item, p⟩ := t
  cases item with
  | number text =>
      simp only [argument?, Option.some.injEq] at h
      split at h <;> cases h
      rfl
  | quoted | multiline | strings | tag =>
      cases h
      rfl
  | _ => cases h

theorem tests_concat {a : Argument Pos} (hhead : head.tests = [])
    (h : argument? t = some (.ok a)) :
    ({ head with arguments := head.arguments ++ [a] } : Head Pos).tests = [] := by
  rw [Head.tests] at hhead ⊢
  rw [List.filterMap_append, hhead, List.filterMap_cons_none (test?_of_argument h)]
  rfl

theorem shaped_closeTest {test : Test Pos} (hhead : head.tests = []) (hholders : WholeHolders holders)
    (htest : test.Whole) : PhaseShaped (closeTest head test holders) := by
  fun_induction closeTest head test holders with
  | case1 test =>
      have htests : ({ head with arguments := head.arguments ++ [.test test] } : Head Pos).tests =
          [test] := by
        rw [Head.tests] at hhead ⊢
        rw [List.filterMap_append, hhead]
        rfl
      refine ⟨by rw [htests]; rfl, ?_⟩
      rw [htests]
      simpa using htest
  | case2 test parent holders ih =>
      refine ih (fun l hl => hholders l (List.mem_cons_of_mem _ hl)) (parent.whole_close ?_)
      simpa using htest
  | case3 test l holders =>
      refine ⟨hhead, fun l' hl' => ?_⟩
      rcases List.mem_cons.1 hl' with heq | hl'
      · cases heq
        rw [List.forall_mem_append]
        exact ⟨hholders l List.mem_cons_self, by simpa using htest⟩
      · exact hholders l' (List.mem_cons_of_mem _ hl')

theorem shaped_finished {phase : Phase} (h : PhaseShaped phase) : PhaseShaped phase.finished := by
  cases phase with
  | arguments head => exact .of_nil h
  | testArguments head holders test =>
      exact shaped_closeTest h.1 h.2 (test.whole_close fun t ht => absurd ht List.not_mem_nil)
  | statement | testName | testEnd | ended => exact h

theorem shaped_opens {phase : Phase} (h : PhaseShaped phase) (hat : Opens head phase holders) :
    head.tests = [] ∧ WholeHolders holders := by
  cases hat with
  | command => exact ⟨h, fun l hl => absurd hl List.not_mem_nil⟩
  | single => exact ⟨h.1, fun l hl => h.2 l (by simpa using hl)⟩
  | list => exact h

/-! ## Steps -/

/-- A token keeps the shape. -/
theorem shaped_moves (hs : s.Shaped) (h : Moves o s t s') : s'.Shaped := by
  have hphase := hs.phase
  have hfinished := shaped_finished hs.phase
  cases h with
  | comment text ht => exact ⟨hs.frames, hs.commands, hphase⟩
  | command name hat ht => exact ⟨hs.frames, hs.commands, rfl⟩
  | closeBrace f frames hat hframes ht =>
      have hall := hs.frames
      rw [hframes, List.forall_mem_cons] at hall
      exact ⟨hall.2, hall.1.2.concat (commandsShaped_control hall.1.1 hs.commands), trivial⟩
  | argument head a hat ht =>
      rw [hat] at hphase
      exact ⟨hs.frames, hs.commands, tests_concat hphase ht⟩
  | testArgument head holders test a hat ht =>
      rw [hat] at hphase
      exact ⟨hs.frames, hs.commands, hphase⟩
  | test head holders name hat ht hdepth => exact ⟨hs.frames, hs.commands, shaped_opens hphase hat⟩
  | openParen head holders test hat ht =>
      rw [hat] at hphase
      refine ⟨hs.frames, hs.commands, hphase.1, fun l hl => ?_⟩
      rcases List.mem_cons.1 hl with heq | hl
      · cases heq
        exact fun u hu => absurd hu List.not_mem_nil
      · exact hphase.2 l hl
  | comma head holders list hat ht =>
      rw [hat] at hfinished
      exact ⟨hs.frames, hs.commands, hfinished⟩
  | closeParen head holders list hat ht =>
      rw [hat] at hfinished
      obtain ⟨hhead, hholders⟩ := hfinished
      refine ⟨hs.frames, hs.commands, shaped_closeTest hhead ?_ (list.parent.whole_close ?_)⟩
      · exact fun l hl => hholders l (List.mem_cons_of_mem _ hl)
      · exact hholders list List.mem_cons_self
  | semicolon head hat ht hname =>
      rw [hat] at hfinished
      exact ⟨hs.frames, hs.commands.concat (commandsShaped_simple hfinished), trivial⟩
  | openBrace head hat ht hname hdepth =>
      rw [hat] at hfinished
      refine ⟨List.forall_mem_cons.2 ⟨⟨hfinished, hs.commands⟩, hs.frames⟩, ?_, trivial⟩
      exact fun c hc => absurd hc List.not_mem_nil

theorem shaped_start : State.Shaped .start :=
  ⟨fun _ hf => absurd hf List.not_mem_nil, fun _ hc => absurd hc List.not_mem_nil, trivial⟩

theorem shaped_run {ts : List Token} {b : Block} (hs : s.Shaped) (h : run o s ts = .ok b) :
    CommandsShaped b.commands := by
  induction ts generalizing s with
  | nil =>
      rw [(eq_of_finish h).2.2]
      exact hs.commands
  | cons t ts ih =>
      rcases cases_of_run h with ⟨-, h⟩ | ⟨s', hmoves, h⟩
      · rw [(eq_of_finish h).2.2]
        exact hs.commands
      · exact ih (shaped_moves hs hmoves) h

/-! ## Scripts -/

theorem shaped_withoutArguments {c : Command} {rest : List Command}
    (h : CommandsShaped (c :: rest)) : CommandsShaped (withoutArguments c :: rest) := by
  unfold CommandsShaped at *
  have hbare : ({ c.head with arguments := [] } : Head Pos).OneTest := .of_nil rfl
  cases c with
  | simple head =>
      simp only [Command.walkAll, Command.walk, List.forall_mem_append, List.forall_mem_singleton,
        withoutArguments, Command.block?, Command.ofParts] at h ⊢
      exact ⟨hbare, h.2⟩
  | control head commands trailing opening =>
      simp only [Command.walkAll, Command.walk, List.forall_mem_append, List.forall_mem_cons,
        withoutArguments, Command.block?, Command.ofParts] at h ⊢
      exact ⟨⟨hbare, h.1.2⟩, h.2⟩

theorem shaped_assemble {b : Block} (filename : String) (h : CommandsShaped b.commands) :
    (assemble b filename).Shaped := by
  have hplain : (⟨b, [], filename, ⟨1, 1, 0⟩⟩ : Script).Shaped := ⟨h, fun hne => absurd rfl hne⟩
  unfold assemble
  split
  · next c rest hcs =>
      split
      · next hrequire =>
          split
          · next names hdeclared =>
              refine ⟨shaped_withoutArguments (hcs ▸ h), fun _ => ?_⟩
              have hbare : (withoutArguments c).head.isBareRequire = true := by
                rw [head_withoutArguments, Head.isBareRequire]
                simpa [Head.keyword?] using hrequire
              exact congrArg Option.isSome (Option.filter_some_pos hbare)
          · exact hplain
      · exact hplain
  · exact hplain

end Reading

theorem Script.shaped_of_ofText {source filename : String} {o : ReadOptions} {t : Script}
    (h : Script.ofText source filename o = .ok t) : t.Shaped := by
  rw [Script.ofText, Script.ofTextIn] at h
  obtain ⟨tokens, -, h⟩ := ok_of_bind h
  obtain ⟨b, hrun, rfl⟩ := Lexeme.map_ok (f := (Reading.assemble · filename)) h
  exact Reading.shaped_assemble filename (Reading.shaped_run Reading.shaped_start hrun)

end MailFilter
