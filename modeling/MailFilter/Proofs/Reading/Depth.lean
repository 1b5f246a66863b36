import MailFilter.Proofs.Reading.Invariant

/-!
# How deep a script is that is read

The levels of all that a reader has not finished.  A token adds a level only where a block or a test
opens, and there the limit is checked, whatever the commands are.  The levels never become less, so a
limit refuses a script exactly if the script is deeper at its end.
-/

namespace MailFilter.Reading

variable {r : Registry} {limit : Value} {m n : Nat} {s s' : State} {t : Token}

/-! ## Levels -/

/-- The levels of the open blocks, with what stands before them. -/
def framesLevels : List Frame → Nat
  | [] => 0
  | f :: frames =>
    max (frames.length + max (max 1 (Test.heightOf f.head.arguments)) (Command.heightAll f.before))
      (framesLevels frames)

/-- The levels of the finished tests in open lists, inside a number of blocks. -/
def holdersLevels (n : Nat) : List Holder → Nat
  | [] => 0
  | .single _ :: holders => holdersLevels n holders
  | .list l :: holders =>
    max (n + 1 + holders.length + Test.heightOf (l.tests.map .test)) (holdersLevels n holders)

/-- The levels of the command at hand, inside a number of blocks. -/
def Phase.levels (n : Nat) : Phase → Nat
  | .statement => n
  | .arguments head | .ended head => n + Test.heightOf head.arguments
  | .testArguments head holders _ =>
    max (n + Test.heightOf head.arguments) (max (n + 1 + holders.length) (holdersLevels n holders))
  | .testName head holders list | .testEnd head holders list =>
    max (n + Test.heightOf head.arguments) (holdersLevels n (.list list :: holders))

def State.levels (s : State) : Nat :=
  max (framesLevels s.frames)
    (max (s.frames.length + Command.heightAll s.commands) (s.phase.levels s.frames.length))

theorem State.levels_le : s.levels ≤ m ↔ framesLevels s.frames ≤ m ∧
    s.frames.length + Command.heightAll s.commands ≤ m ∧ s.phase.levels s.frames.length ≤ m := by
  rw [State.levels, Nat.max_le, Nat.max_le]

def tooDeep (m : Nat) (p : Pos) : ReadError :=
  .tooDeep ⟨.int m, .int p.line, .int p.column⟩

theorem checkDepth_int (d : Nat) (p : Pos) :
    checkDepth ⟨r, .int m⟩ d p = if d ≤ m then .ok () else .error (tooDeep m p) := by
  have hcompare : (Value.int m).compareInt? d = some (some (compare (m : Int) d)) := rfl
  unfold checkDepth
  rw [hcompare]
  by_cases hd : d ≤ m
  · have hnot : compare (m : Int) d ≠ .lt := by
      rw [Ne, Int.compare_eq_lt]
      omega
    rw [if_pos hd]
    cases hm : compare (m : Int) d with
    | lt => exact absurd hm hnot
    | eq | gt => rfl
  · rw [if_neg hd, Int.compare_eq_lt.2 (by omega)]
    rfl

/-- What passes one check at a place, after which a state has the levels from before or those that were
checked. -/
def Deepens (r : Registry) (f : ReadOptions → Except ReadError State) (n : Nat) (s' : State) (p : Pos) :
    Prop :=
  ∃ d, s'.levels = max n d ∧
    ∀ m : Nat, f ⟨r, .int m⟩ = (checkDepth ⟨r, .int m⟩ d p >>= fun _ => .ok s')

theorem Deepens.of_eq {f : ReadOptions → Except ReadError State} {p : Pos} (hlevels : s'.levels = n)
    (h : ∀ limit, f ⟨r, limit⟩ = .ok s') : Deepens r f n s' p := by
  refine ⟨0, by rw [hlevels, Nat.max_zero], fun m => ?_⟩
  rw [h, checkDepth_int, if_pos (Nat.zero_le m)]
  rfl

/-! ## Tests -/

theorem levels_closeTest (head : Head Pos) (test : Test Pos) (holders : List Holder) :
    (closeTest head test holders).levels n = max (n + Test.heightOf head.arguments)
      (max (holdersLevels n holders) (n + holders.length + test.height)) := by
  refine eq_of_forall_ge_iff fun m => ?_
  fun_induction closeTest head test holders with
  | case1 test =>
      simp only [Phase.levels, holdersLevels, heightOf_append, Test.heightOf, List.length_nil,
        ← Nat.add_max_add_left, Nat.max_le]
      omega
  | case2 test parent holders ih =>
      rw [ih, height_close]
      simp only [List.map_cons, List.map_nil, Test.heightOf, holdersLevels, List.length_cons, Nat.max_le,
        Nat.max_zero]
      omega
  | case3 test l holders =>
      simp only [Phase.levels, holdersLevels, List.map_append, List.map_cons, List.map_nil,
        heightOf_append, Test.heightOf, List.length_cons, ← Nat.add_max_add_left, Nat.max_le]
      omega

theorem heightOf_argument {a : Argument Pos} (h : argument? t = some (.ok a))
    (as : List (Argument Pos)) : Test.heightOf (as ++ [a]) = Test.heightOf as := by
  have hnone : Test.heightOf [a] = 0 := by
    obtain ⟨item, p⟩ := t
    cases item with
    | quoted | multiline | strings | tag =>
        cases h
        rfl
    | number text =>
        simp only [argument?, Option.some.injEq] at h
        split at h
        · cases h
          rfl
        · cases h
    | _ => cases h
  rw [heightOf_append, hnone, Nat.max_zero]

theorem levels_finished (phase : Phase) : phase.finished.levels n = phase.levels n := by
  cases phase with
  | testArguments head holders test =>
      refine eq_of_forall_ge_iff fun m => ?_
      simp only [Phase.finished, settle, levels_closeTest, height_close, List.map_nil, Test.heightOf]
      simp only [Phase.levels, Nat.max_le]
      omega
  | statement | arguments | testName | testEnd | ended => rfl

theorem levels_opens {phase : Phase} {head : Head Pos} {holders : List Holder}
    (hat : Opens head phase holders) (test : OpenTest) :
    (Phase.testArguments head holders test).levels n = max (phase.levels n) (n + 1 + holders.length) := by
  refine eq_of_forall_ge_iff fun m => ?_
  cases hat with
  | command =>
      simp only [Phase.levels, holdersLevels, List.length_nil, Nat.max_le]
      omega
  | single | list =>
      simp only [Phase.levels, holdersLevels, List.length_cons, Nat.max_le]
      omega

/-! ## Steps -/

/-- A token deepens what has been read to the depth that is checked, if to any. -/
theorem deepens_moves (h : Moves ⟨r, limit⟩ s t s') :
    Deepens r (step · s t) s.levels s' t.pos := by
  have hphase : ∀ {phase : Phase}, phase.levels s.frames.length = s.phase.levels s.frames.length →
      State.levels { s with phase } = s.levels := fun heq => by
    rw [State.levels, State.levels, heq]
  cases h with
  | comment text ht => exact .of_eq rfl fun _ => step_of_moves (.comment text ht)
  | command name hat ht =>
      refine .of_eq ?_ fun _ => step_of_moves (.command name hat ht)
      simp only [State.levels, hat, Phase.levels, Test.heightOf, Nat.add_zero]
  | closeBrace f frames hat hframes ht =>
      refine .of_eq (eq_of_forall_ge_iff fun m => ?_) fun _ =>
        step_of_moves (.closeBrace f frames hat hframes ht)
      simp only [State.levels_le, hat, hframes, Phase.levels, framesLevels, List.length_cons,
        heightAll_append, Command.heightAll, Command.height, ← Nat.add_max_add_left, Nat.max_le]
      omega
  | argument head a hat ht =>
      refine .of_eq (hphase ?_) fun _ => step_of_moves (.argument head a hat ht)
      simp only [hat, Phase.levels, heightOf_argument ht]
  | testArgument head holders test a hat ht =>
      exact .of_eq (hphase (hat ▸ rfl)) fun _ => step_of_moves (.testArgument head holders test a hat ht)
  | test head holders name hat ht hdepth =>
      refine ⟨testDepth s.frames holders, eq_of_forall_ge_iff fun m => ?_, fun _ =>
        step_identifier hat ht⟩
      simp only [State.levels_le, levels_opens hat, testDepth, Nat.max_le]
      omega
  | openParen head holders test hat ht =>
      refine .of_eq (hphase ?_) fun _ => step_of_moves (.openParen head holders test hat ht)
      simp only [hat, Phase.levels, holdersLevels, List.map_nil, Test.heightOf, Nat.add_zero]
  | comma head holders list hat ht =>
      refine .of_eq (hphase ?_) fun _ => step_of_moves (.comma head holders list hat ht)
      rw [← levels_finished s.phase, hat]
      rfl
  | closeParen head holders list hat ht =>
      refine .of_eq (hphase ?_) fun _ => step_of_moves (.closeParen head holders list hat ht)
      refine eq_of_forall_ge_iff fun m => ?_
      rw [← levels_finished s.phase, hat]
      simp only [levels_closeTest, height_close]
      simp only [Phase.levels, holdersLevels, Nat.max_le]
      omega
  | semicolon head hat ht hname =>
      refine .of_eq (eq_of_forall_ge_iff fun m => ?_) fun _ =>
        step_of_moves (.semicolon head hat ht hname)
      rw [State.levels_le, State.levels_le, ← levels_finished s.phase, hat]
      simp only [push, Phase.levels, heightAll_append, Command.heightAll, Command.height,
        ← Nat.add_max_add_left, Nat.max_le]
      omega
  | openBrace head hat ht hname hdepth =>
      refine ⟨s.frames.length + 1, eq_of_forall_ge_iff fun m => ?_, fun _ =>
        step_openBrace hat ht hname⟩
      rw [Nat.max_le, State.levels_le, State.levels_le, ← levels_finished s.phase, hat]
      simp only [Phase.levels, framesLevels, List.length_cons, Command.heightAll,
        ← Nat.add_max_add_left, Nat.max_le]
      omega

theorem step_withLimit (h : step ⟨r, limit⟩ s t = .ok s') (hs : s.levels ≤ m) :
    step ⟨r, .int m⟩ s t = if s'.levels ≤ m then .ok s' else .error (tooDeep m t.pos) := by
  obtain ⟨d, hlevels, hstep⟩ := deepens_moves (moves_of_step h)
  have hiff : s'.levels ≤ m ↔ d ≤ m := by
    rw [hlevels, Nat.max_le]
    exact and_iff_right hs
  refine (hstep m).trans ?_
  rw [checkDepth_int]
  by_cases hd : d ≤ m
  · rw [if_pos hd, if_pos (hiff.2 hd)]
    rfl
  · rw [if_neg hd, if_neg (mt hiff.1 hd)]
    rfl

theorem levels_le_of_moves (h : Moves ⟨r, limit⟩ s t s') : s.levels ≤ s'.levels := by
  obtain ⟨d, hlevels, -⟩ := deepens_moves h
  exact hlevels ▸ Nat.le_max_left _ _

/-! ## Runs -/

theorem levels_of_finish {stop : Option Pos} {b : Block} (h : finish s stop = .ok b) :
    s.levels = Command.heightAll b.commands := by
  obtain ⟨hphase, hframes, rfl⟩ := eq_of_finish h
  simp only [State.levels, hphase, hframes, framesLevels, Phase.levels, List.length_nil, Nat.zero_add,
    Nat.max_zero, Nat.zero_max]

theorem levels_le_of_run {ts : List Token} {b : Block} (h : run ⟨r, limit⟩ s ts = .ok b) :
    s.levels ≤ Command.heightAll b.commands := by
  induction ts generalizing s with
  | nil => exact (levels_of_finish h).le
  | cons t ts ih =>
      rcases cases_of_run h with ⟨-, h⟩ | ⟨s', hmoves, h⟩
      · exact (levels_of_finish h).le
      · exact (levels_le_of_moves hmoves).trans (ih h)

/-- A script that is read under some limit is read under another one exactly if it is no deeper, and is
refused for its depth otherwise. -/
theorem run_withLimit {ts : List Token} {b : Block} (h : run ⟨r, limit⟩ s ts = .ok b)
    (hs : s.levels ≤ m) :
    (Command.heightAll b.commands ≤ m → run ⟨r, .int m⟩ s ts = .ok b) ∧
      (¬ Command.heightAll b.commands ≤ m → ∃ p, run ⟨r, .int m⟩ s ts = .error (tooDeep m p)) := by
  induction ts generalizing s with
  | nil => exact ⟨fun _ => h, fun hdeep => absurd ((levels_of_finish h).ge.trans hs) hdeep⟩
  | cons t ts ih =>
      rw [run] at h ⊢
      split at h
      · next hend =>
          rw [if_pos hend]
          exact ⟨fun _ => h, fun hdeep => absurd ((levels_of_finish h).ge.trans hs) hdeep⟩
      · next hend =>
          obtain ⟨s', hstep, h⟩ := ok_of_bind h
          rw [if_neg hend, step_withLimit hstep hs]
          by_cases hs' : s'.levels ≤ m
          · rw [if_pos hs']
            exact ih h hs'
          · rw [if_neg hs']
            exact ⟨fun hle => absurd ((levels_le_of_run h).trans hle) hs', fun _ => ⟨t.pos, rfl⟩⟩

/-! ## Scripts -/

theorem heightOf_of_declared? {as : List (Argument Pos)} {names : List String}
    (h : declared? as = some names) : Test.heightOf as = 0 := by
  unfold declared? at h
  split at h
  · rfl
  · rfl
  · cases h

theorem height_withoutArguments {c : Command} (h : Test.heightOf c.head.arguments = 0) :
    (withoutArguments c).height = c.height := by
  cases c with
  | simple head => exact h.symm
  | control head commands trailing opening =>
      have h : Test.heightOf head.arguments = 0 := h
      simp only [withoutArguments, Command.head, Command.block?, Command.ofParts, Command.height,
        Test.heightOf, h]

theorem heightAll_assemble (b : Block) (filename : String) :
    Command.heightAll (assemble b filename).commands = Command.heightAll b.commands := by
  unfold assemble
  split
  · next c rest hcs =>
      rw [hcs]
      split
      · split
        · next names hnames =>
            have hheight := heightOf_of_declared? hnames
            show Command.heightAll (withoutArguments c :: rest) = _
            rw [Command.heightAll, Command.heightAll, height_withoutArguments hheight]
        · exact congrArg Command.heightAll hcs
      · exact congrArg Command.heightAll hcs
  · rfl

theorem ofTokens_withLimit {ts : List Token} {filename : String} {script : Script}
    (h : Script.ofTokens ts filename ⟨r, limit⟩ = .ok script) (m : Nat) :
    (Command.heightAll script.commands ≤ m → Script.ofTokens ts filename ⟨r, .int m⟩ = .ok script) ∧
      (¬ Command.heightAll script.commands ≤ m →
        ∃ p, Script.ofTokens ts filename ⟨r, .int m⟩ = .error (tooDeep m p)) := by
  have hstart : State.start.levels ≤ m := Nat.zero_le m
  obtain ⟨b, hrun, rfl⟩ := Lexeme.map_ok (f := (assemble · filename)) h
  obtain ⟨hfits, hdeep⟩ := run_withLimit hrun hstart
  rw [heightAll_assemble]
  refine ⟨fun hle => ?_, fun hgt => ?_⟩
  · rw [Script.ofTokens, hfits hle]
    rfl
  · obtain ⟨p, hp⟩ := hdeep hgt
    refine ⟨p, ?_⟩
    rw [Script.ofTokens, hp]
    rfl

/-- Every script that is read is no deeper than the limit, whatever the commands are. -/
theorem heightAll_of_ofTokens {ts : List Token} {filename : String} {script : Script}
    (h : Script.ofTokens ts filename ⟨r, .int m⟩ = .ok script) :
    Command.heightAll script.commands ≤ m := by
  by_contra hdeep
  obtain ⟨p, hp⟩ := (ofTokens_withLimit h m).2 hdeep
  cases h.symm.trans hp

end MailFilter.Reading
