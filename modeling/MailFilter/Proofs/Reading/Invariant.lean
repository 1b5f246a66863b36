import MailFilter.Proofs.Reading.Moves
import MailFilter.Proofs.Reading.Script

/-!
# What a reader has read is printable

Everything that a state of a reader holds can be written, and stands no deeper than the limit allows.
Each token keeps this, so the script at the end is printable.
-/

namespace MailFilter.Reading

variable {o : ReadOptions} {n : Nat}

/-! ## Depth -/

theorem permits_zero (o : ReadOptions) : Permits o 0 := by
  intro d p hpos hd
  omega

theorem Permits.succ (h : Permits o n) {p : Pos} (hcheck : checkDepth o (n + 1) p = .ok ()) :
    Permits o (n + 1) := by
  have hanywhere : ∀ q, checkDepth o (n + 1) q = .ok () := by
    intro q
    unfold checkDepth at hcheck ⊢
    split at hcheck
    · cases hcheck
    · cases hcheck
    · rfl
  intro d q hpos hd
  rcases Nat.lt_or_eq_of_le hd with hlt | rfl
  · exact h d q hpos (by omega)
  · exact hanywhere q

theorem Permits.max {m k : Nat} (hm : Permits o (n + m)) (hk : Permits o (n + k)) :
    Permits o (n + max m k) := by
  rcases Nat.le_total m k with h | h
  · rwa [Nat.max_eq_right h]
  · rwa [Nat.max_eq_left h]

/-! ## The invariant -/

/-- An open test can be written so far. -/
structure OpenTest.Sound (t : OpenTest) : Prop where
  name : IsName t.name
  arguments : ∀ a ∈ t.arguments, a.IsPlain

/-- Finished tests of a list at a depth can be written and are not too deep. -/
structure TestsSound (o : ReadOptions) (n : Nat) (ts : List (Test Pos)) : Prop where
  printable : ∀ t ∈ ts, t.Printable
  depth : Permits o (n + Test.heightOf (ts.map .test))

/-- The tests around the one that is being read, inside a number of blocks. -/
def HoldersSound (o : ReadOptions) (n : Nat) : List Holder → Prop
  | [] => True
  | .single parent :: holders => parent.Sound ∧ HoldersSound o n holders
  | .list l :: holders =>
    l.parent.Sound ∧ TestsSound o (n + 1 + holders.length) l.tests ∧ HoldersSound o n holders

/-- A command whose arguments are being read can be written so far. -/
structure HeadOpen (head : Head Pos) : Prop where
  name : IsName head.name
  arguments : ∀ a ∈ head.arguments, a.IsPlain

/-- A command whose name and arguments are finished, inside a number of blocks. -/
structure HeadSound (o : ReadOptions) (n : Nat) (head : Head Pos) : Prop where
  printable : head.Printable
  depth : Permits o (n + Test.heightOf head.arguments)

/-- Finished commands inside a number of blocks. -/
structure CommandsSound (o : ReadOptions) (n : Nat) (cs : List Command) : Prop where
  printable : Command.PrintableAll cs
  depth : Permits o (n + Command.heightAll cs)

/-- The blocks around the innermost one. -/
def FramesSound (o : ReadOptions) : List Frame → Prop
  | [] => True
  | f :: frames =>
    HeadSound o frames.length f.head ∧ Registry.default.isControl? f.head.name ≠ some false ∧
      Permits o (frames.length + 1) ∧ CommandsSound o frames.length f.before ∧ FramesSound o frames

/-- How far the command at hand has come, inside a number of blocks. -/
def PhaseSound (o : ReadOptions) (n : Nat) : Phase → Prop
  | .statement => True
  | .arguments head => HeadOpen head
  | .testArguments head holders test =>
    HeadOpen head ∧ HoldersSound o n holders ∧ test.Sound ∧ Permits o (n + 1 + holders.length)
  | .testName head holders list | .testEnd head holders list =>
    HeadOpen head ∧ HoldersSound o n (.list list :: holders) ∧ Permits o (n + 1 + holders.length)
  | .ended head => HeadSound o n head

/-- A state whose parts can be written and are not too deep. -/
structure State.Sound (o : ReadOptions) (s : State) : Prop where
  frames : FramesSound o s.frames
  commands : CommandsSound o s.frames.length s.commands
  phase : PhaseSound o s.frames.length s.phase

theorem CommandsSound.nil (h : Permits o n) : CommandsSound o n [] :=
  ⟨trivial, h⟩

theorem sound_start (o : ReadOptions) : State.Sound o .start :=
  ⟨trivial, CommandsSound.nil (permits_zero o), trivial⟩

theorem FramesSound.permits {frames : List Frame} (h : FramesSound o frames) :
    Permits o frames.length := by
  cases frames with
  | nil => exact permits_zero o
  | cons f frames => exact h.2.2.1

theorem CommandsSound.concat {cs : List Command} {c : Command} (h : CommandsSound o n cs)
    (hprint : c.Printable) (hdepth : Permits o (n + c.height)) : CommandsSound o n (cs ++ [c]) := by
  refine ⟨?_, ?_⟩
  · have hcs := Command.printableAll_iff.1 h.printable
    rw [Command.printableAll_iff]
    simpa [or_imp, forall_and] using ⟨hcs, hprint⟩
  · rw [heightAll_append, Command.heightAll, Command.heightAll, Nat.max_zero]
    exact h.depth.max hdepth

theorem TestsSound.concat {ts : List (Test Pos)} {t : Test Pos} (h : TestsSound o n ts)
    (hprint : t.Printable) (hdepth : Permits o (n + t.height)) : TestsSound o n (ts ++ [t]) := by
  refine ⟨?_, ?_⟩
  · simpa [or_imp, forall_and] using ⟨h.printable, hprint⟩
  · rw [List.map_append, heightOf_append, List.map_singleton, Test.heightOf, Test.heightOf,
      Nat.max_zero]
    exact h.depth.max hdepth

/-! ## Arguments and tests -/

theorem isPlain_of_argument {t : Token} {a : Argument Pos} (hsound : t.item.IsSound)
    (h : argument? t = some (.ok a)) : a.IsPlain := by
  obtain ⟨item, p⟩ := t
  cases item with
  | quoted | multiline | strings =>
      cases h
      trivial
  | number text =>
      simp only [argument?, Option.some.injEq] at h
      split at h
      · next m unit hnumber =>
          cases h
          exact isShort_of_number hsound hnumber
      · cases h
  | tag name =>
      cases h
      exact isTag_lower hsound.1 hsound.2
  | _ => cases h

theorem OpenTest.Sound.close {test : OpenTest} (h : test.Sound) {ts : List (Test Pos)}
    (hts : ∀ t ∈ ts, t.Printable) : (test.close ts).Printable := by
  refine ⟨h.name, h.arguments, ?_⟩
  rw [Argument.printableTests_iff]
  intro a ha
  obtain ⟨t, ht, rfl⟩ := List.mem_map.1 ha
  exact ⟨t, rfl, hts t ht⟩

theorem height_close (test : OpenTest) (ts : List (Test Pos)) :
    (test.close ts).height = 1 + Test.heightOf (ts.map .test) := by
  rw [OpenTest.close, Test.height]

theorem sound_closeTest {head : Head Pos} {holders : List Holder} {t : Test Pos}
    (hhead : HeadOpen head) (hholders : HoldersSound o n holders) (hprint : t.Printable)
    (hdepth : Permits o (n + holders.length + t.height)) :
    PhaseSound o n (closeTest head t holders) := by
  fun_induction closeTest head t holders with
  | case1 t =>
      refine ⟨⟨hhead.name, Argument.printableAll_append hhead.arguments hprint⟩, ?_⟩
      have hplain : Test.heightOf head.arguments = 0 := heightOf_plain hhead.arguments
      rw [heightOf_append, hplain, Test.heightOf, Test.heightOf]
      exact hdepth.mono (by simp)
  | case2 t parent holders ih =>
      refine ih hholders.2 (hholders.1.close (by simpa using hprint)) ?_
      rw [height_close]
      refine hdepth.mono ?_
      simp only [List.map_cons, List.map_nil, Test.heightOf, List.length_cons]
      omega
  | case3 t l holders =>
      rw [List.length_cons] at hdepth
      refine ⟨hhead, ⟨hholders.1, ?_, hholders.2.2⟩, hdepth.mono (by omega)⟩
      exact hholders.2.1.concat hprint (hdepth.mono (by omega))

theorem HeadOpen.concat {head : Head Pos} {a : Argument Pos} (h : HeadOpen head) (ha : a.IsPlain) :
    HeadOpen { head with arguments := head.arguments ++ [a] } :=
  ⟨h.name, by simpa [or_imp, forall_and] using ⟨h.arguments, ha⟩⟩

theorem OpenTest.Sound.concat {test : OpenTest} {a : Argument Pos} (h : test.Sound) (ha : a.IsPlain) :
    OpenTest.Sound { test with arguments := test.arguments ++ [a] } :=
  ⟨h.name, by simpa [or_imp, forall_and] using ⟨h.arguments, ha⟩⟩

theorem HeadOpen.sound {head : Head Pos} (h : HeadOpen head) (hdepth : Permits o n) :
    HeadSound o n head := by
  refine ⟨⟨h.name, Argument.printableAll_of_plain h.arguments⟩, ?_⟩
  rwa [heightOf_plain h.arguments]

theorem sound_finished {phase : Phase} (hn : Permits o n) (h : PhaseSound o n phase) :
    PhaseSound o n phase.finished := by
  cases phase with
  | arguments head => exact h.sound hn
  | testArguments head holders test =>
      obtain ⟨hhead, hholders, htest, hdepth⟩ := h
      refine sound_closeTest hhead hholders (htest.close fun t ht => absurd ht List.not_mem_nil) ?_
      rw [height_close]
      exact hdepth.mono (by simp only [List.map_nil, Test.heightOf]; omega)
  | statement | testName | testEnd | ended => exact h

theorem sound_opens {phase : Phase} {head : Head Pos} {holders : List Holder} (hn : Permits o n)
    (h : PhaseSound o n phase) (hat : Opens head phase holders) :
    HeadOpen head ∧ HoldersSound o n holders ∧ Permits o (n + holders.length) := by
  cases hat with
  | command => exact ⟨h, trivial, hn⟩
  | single holders test =>
      obtain ⟨hhead, hholders, htest, hdepth⟩ := h
      exact ⟨hhead, ⟨htest, hholders⟩, hdepth.mono (by rw [List.length_cons]; omega)⟩
  | list holders list =>
      obtain ⟨hhead, hholders, hdepth⟩ := h
      exact ⟨hhead, hholders, hdepth.mono (by rw [List.length_cons]; omega)⟩

/-! ## Steps -/

/-- A token keeps what can be written. -/
theorem sound_moves (ho : o.registry = .default) {s s' : State} {t : Token} (hs : s.Sound o)
    (ht : t.item.IsSound) (h : Moves o s t s') : s'.Sound o := by
  have hphase := hs.phase
  have hfinished := sound_finished hs.frames.permits hs.phase
  cases h with
  | comment text hitem => exact ⟨hs.frames, hs.commands, hphase⟩
  | command name hat hitem =>
      rw [hitem] at ht
      exact ⟨hs.frames, hs.commands, isName_normalName ht, fun a ha => absurd ha List.not_mem_nil⟩
  | closeBrace f frames hat hframes hitem =>
      have hcommands := hs.commands
      have hall := hs.frames
      rw [hframes] at hcommands hall
      obtain ⟨hhead, hcontrol, -, hbefore, hrest⟩ := hall
      refine ⟨hrest, hbefore.concat ⟨hhead.printable, hcontrol, hcommands.printable⟩ ?_, trivial⟩
      rw [Command.height]
      exact hhead.depth.max (hcommands.depth.mono (by rw [List.length_cons]; omega))
  | argument head a hat ha =>
      rw [hat] at hphase
      exact ⟨hs.frames, hs.commands, hphase.concat (isPlain_of_argument ht ha)⟩
  | testArgument head holders test a hat ha =>
      rw [hat] at hphase
      obtain ⟨hhead, hholders, htest, hdepth⟩ := hphase
      exact ⟨hs.frames, hs.commands, hhead, hholders, htest.concat (isPlain_of_argument ht ha), hdepth⟩
  | test head holders name hat hitem hcheck =>
      rw [hitem] at ht
      obtain ⟨hhead, hholders, hdepth⟩ := sound_opens hs.frames.permits hphase hat
      have hlevels : testDepth s.frames holders = s.frames.length + holders.length + 1 := by
        unfold testDepth
        omega
      rw [hlevels] at hcheck
      refine ⟨hs.frames, hs.commands, hhead, hholders, ⟨isName_normalName ht, ?_⟩, ?_⟩
      · exact fun a ha => absurd ha List.not_mem_nil
      · exact (hdepth.succ hcheck).mono (by dsimp only; omega)
  | openParen head holders test hat hitem =>
      rw [hat] at hphase
      obtain ⟨hhead, hholders, htest, hdepth⟩ := hphase
      exact ⟨hs.frames, hs.commands, hhead, ⟨htest, ⟨by simp, hdepth⟩, hholders⟩, hdepth⟩
  | comma head holders list hat hitem =>
      rw [hat] at hfinished
      exact ⟨hs.frames, hs.commands, hfinished⟩
  | closeParen head holders list hat hitem =>
      rw [hat] at hfinished
      obtain ⟨hhead, ⟨hparent, htests, hholders⟩, hdepth⟩ := hfinished
      refine ⟨hs.frames, hs.commands, ?_⟩
      refine sound_closeTest hhead hholders (hparent.close htests.printable) ?_
      rw [height_close]
      exact htests.depth.mono (by dsimp only; omega)
  | semicolon head hat hitem hcontrol =>
      rw [hat] at hfinished
      rw [ho] at hcontrol
      exact ⟨hs.frames, hs.commands.concat ⟨hfinished.printable, hcontrol⟩ hfinished.depth, trivial⟩
  | openBrace head hat hitem hcontrol hcheck =>
      rw [hat] at hfinished
      rw [ho] at hcontrol
      have hpermits := hs.frames.permits.succ hcheck
      exact ⟨⟨hfinished, hcontrol, hpermits, hs.commands, hs.frames⟩, CommandsSound.nil hpermits,
        trivial⟩

/-! ## Runs -/

theorem eq_of_finish {s : State} {stop : Option Pos} {b : Block} (h : finish s stop = .ok b) :
    s.phase = .statement ∧ s.frames = [] ∧ b = ⟨s.commands, s.pending, .nowhere⟩ := by
  obtain ⟨pending, frames, commands, phase⟩ := s
  cases phase with
  | statement =>
      cases frames with
      | nil => exact ⟨rfl, rfl, (Except.ok.inj h).symm⟩
      | cons f frames => cases h
  | testArguments head holders test =>
      simp only [finish] at h
      rcases closeTest_cases head (test.close []) holders with ⟨head', hclose⟩ | ⟨_, _, hclose⟩
      all_goals
        rw [hclose] at h
        cases h
  | arguments | testName | testEnd | ended => cases h

theorem sound_finish {s : State} {stop : Option Pos} {b : Block} (hs : s.Sound o)
    (h : finish s stop = .ok b) : CommandsSound o 0 b.commands := by
  obtain ⟨-, hframes, rfl⟩ := eq_of_finish h
  have hcommands := hs.commands
  rwa [hframes] at hcommands

theorem sound_run (ho : o.registry = .default) {s : State} {ts : List Token} {p : Pos} {b : Block}
    (hs : s.Sound o) (hts : ∀ t ∈ ts, t.item.IsSound)
    (h : run o s (ts ++ [⟨.endOfInput, p⟩]) = .ok b) : CommandsSound o 0 b.commands := by
  induction ts generalizing s with
  | nil => exact sound_finish hs h
  | cons t ts ih =>
      obtain ⟨ht, hts⟩ := List.forall_mem_cons.1 hts
      rcases cases_of_run h with ⟨hitem, -⟩ | ⟨s', hmoves, h⟩
      · rw [hitem] at ht
        exact ht.elim
      · exact ih (sound_moves ho hs ht hmoves) hts h

/-! ## Scripts -/

theorem isDeclaration_of_declared {as : List (Argument Pos)} (h : declared? as = none) :
    Argument.isDeclaration as = false := by
  unfold declared? at h
  split at h
  · cases h
  · cases h
  · next hstrings hstring =>
      match as with
      | [] => rfl
      | [.string value form p] => exact absurd rfl (hstring value form p)
      | [.strings values p] => exact absurd rfl (hstrings values p)
      | [.number ..] | [.tag ..] | [.test _] | [.foreign _] => rfl
      | _ :: _ :: _ => unfold Argument.isDeclaration; split <;> simp_all

def withoutArguments (c : Command) : Command :=
  .ofParts { c.head with arguments := [] } c.block?

theorem head_withoutArguments (c : Command) :
    (withoutArguments c).head = { c.head with arguments := [] } := by
  cases c <;> rfl

theorem printable_withoutArguments {c : Command} (h : c.Printable) :
    (withoutArguments c).Printable := by
  cases c with
  | simple head => exact ⟨⟨h.1.name, trivial⟩, h.2⟩
  | control head commands trailing opening => exact ⟨⟨h.1.name, trivial⟩, h.2⟩

theorem height_withoutArguments_le (c : Command) : (withoutArguments c).height ≤ c.height := by
  cases c with
  | simple head => exact Nat.zero_le _
  | control head commands trailing opening =>
      simp only [withoutArguments, Command.head, Command.block?, Command.ofParts, Command.height,
        Test.heightOf]
      omega

theorem heightAll_withoutArguments_le (c : Command) (rest : List Command) :
    Command.heightAll (withoutArguments c :: rest) ≤ Command.heightAll (c :: rest) := by
  have := height_withoutArguments_le c
  rw [Command.heightAll, Command.heightAll]
  omega

theorem printable_declaration {b : Block} {c : Command} {rest : List Command} (filename : String)
    (names : List String) (hprint : c.Printable) (hrest : Command.PrintableAll rest)
    (hrequire : c.head.keyword? = some .require) :
    (⟨{ b with commands := withoutArguments c :: rest }, names.eraseDups, filename, ⟨1, 1, 0⟩⟩ :
      Script).Printable := by
  have hhead := head_withoutArguments c
  have hbare : (withoutArguments c).head.isBareRequire = true := by
    rw [hhead, Head.isBareRequire]
    simpa [Head.keyword?] using hrequire
  refine ⟨⟨printable_withoutArguments hprint, hrest⟩, ?_, nodup_eraseDups names, fun _ => ?_⟩
  · rintro _ ⟨⟩ -
    rw [hhead]
    rfl
  · rw [Script.requireHead?, Script.commands, List.head?_cons, Option.map_some, Option.filter_some,
      if_pos hbare]
    rfl

/-- Taking the capabilities out of the first command keeps a script printable. -/
theorem printable_assemble {b : Block} (filename : String) (h : CommandsSound o 0 b.commands) :
    (assemble b filename).Printable ∧
      Permits o (Command.heightAll (assemble b filename).commands) := by
  have hdepth := h.depth
  rw [Nat.zero_add] at hdepth
  have hplain : (∀ c ∈ b.commands.head?, c.head.keyword? = some .require →
      Argument.isDeclaration c.head.arguments = false) →
      (⟨b, [], filename, ⟨1, 1, 0⟩⟩ : Script).Printable := fun hfront =>
    ⟨h.printable, hfront, List.nodup_nil, fun hne => absurd rfl hne⟩
  unfold assemble
  split
  · next c rest hcs =>
      have hprint := h.printable
      rw [hcs] at hprint hdepth
      split
      · next hrequire =>
          rw [beq_iff_eq] at hrequire
          split
          · next names hdeclared =>
              exact ⟨printable_declaration filename names hprint.1 hprint.2 hrequire,
                hdepth.mono (heightAll_withoutArguments_le c rest)⟩
          · next hdeclared =>
              refine ⟨hplain ?_, by rwa [← hcs] at hdepth⟩
              rw [hcs]
              rintro _ ⟨⟩ -
              exact isDeclaration_of_declared hdeclared
      · next hrequire =>
          refine ⟨hplain ?_, by rwa [← hcs] at hdepth⟩
          rw [hcs]
          rintro _ ⟨⟩ hkeyword
          exact absurd (by simpa using hkeyword) hrequire
  · next hcs =>
      exact ⟨hplain (by simp [hcs]), hdepth⟩

/-- Every script that is read is printable and no deeper than the limit allows. -/
theorem printable_of_ofTextIn {charset source filename : String} {limit : Value} {s : Script}
    (h : Script.ofTextIn charset source filename ⟨.default, limit⟩ = .ok s) :
    s.Printable ∧ Permits ⟨.default, limit⟩ (Command.heightAll s.commands) := by
  rw [Script.ofTextIn] at h
  obtain ⟨tokens, hcomplete, h⟩ := ok_of_bind h
  obtain ⟨ts, p, rfl, hsound⟩ := sound_of_complete hcomplete
  obtain ⟨b, hrun, rfl⟩ := Lexeme.map_ok (f := (assemble · filename)) h
  exact printable_assemble filename (sound_run rfl (sound_start _) hsound hrun)

theorem printable_of_ofText {source filename : String} {limit : Value} {s : Script}
    (h : Script.ofText source filename ⟨.default, limit⟩ = .ok s) :
    s.Printable ∧ Permits ⟨.default, limit⟩ (Command.heightAll s.commands) :=
  printable_of_ofTextIn h

end MailFilter.Reading
