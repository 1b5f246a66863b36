import MailFilter.Proofs.Reading.Steps
import MailFilter.Proofs.Script.Rebuilt

/-!
# Reading tokens that stand elsewhere

Nothing that is read depends on the offsets of the tokens: if tokens move and keep their lines and
columns, the script that is read is the same with its places moved, and an error is the same error at
the moved place.
-/

namespace MailFilter

/-- A way to move places that keeps lines and columns, and the places that stand for none. -/
structure Pos.IsShift (f : Pos → Pos) : Prop where
  line : ∀ p, (f p).line = p.line
  column : ∀ p, (f p).column = p.column
  nowhere : f .nowhere = .nowhere
  start : f .start = .start

section Definitions

variable (f : Pos → Pos)

def Token.relocate (t : Token) : Token := ⟨t.item, f t.pos⟩

def Comment.relocate (c : Comment) : Comment := ⟨c.text, f c.pos⟩

def Head.relocate (h : Head) : Head :=
  ⟨h.name, Argument.mapAll f id h.arguments, h.comments.map (·.relocate f), f h.mark⟩

mutual

def Command.relocate : Command → Command
  | .simple head => .simple (head.relocate f)
  | .control head commands trailing opening =>
    .control (head.relocate f) (Command.relocateAll commands) (trailing.map (·.relocate f)) (f opening)

def Command.relocateAll : List Command → List Command
  | [] => []
  | c :: cs => c.relocate :: Command.relocateAll cs

end

def Block.relocate (b : Block) : Block :=
  ⟨Command.relocateAll f b.commands, b.trailing.map (·.relocate f), f b.pos⟩

def Script.relocate (s : Script) : Script := ⟨s.block.relocate f, s.capabilities, s.filename, f s.pos⟩

/-- An error told at the moved place. A depth is told by line and column, which do not move. -/
def ReadError.relocate : ReadError → ReadError
  | .invalid e => .invalid ⟨e.fault, f e.pos⟩
  | e => e

def Tokens.relocate (ts : Tokens) : Tokens :=
  ⟨ts.tokens.map (·.relocate f), ts.failure.map (·.relocate f)⟩

/-- What comes out where places are moved, given what comes out where they are not. -/
def relocated {γ : Type} (g : γ → γ) : Except ReadError γ → Except ReadError γ
  | .ok a => .ok (g a)
  | .error e => .error (e.relocate f)

end Definitions

variable {f : Pos → Pos}

theorem Argument.mapAll_concat (f : Pos → Pos) (as : List (Argument Pos)) (a : Argument Pos) :
    mapAll f id (as ++ [a]) = mapAll f id as ++ [a.map f id] := by
  simp only [Argument.mapAll_eq_map, List.map_append, List.map_cons, List.map_nil]

theorem Command.relocateAll_eq_map (f : Pos → Pos) (cs : List Command) :
    Command.relocateAll f cs = cs.map (Command.relocate f) := by
  induction cs with
  | nil => rfl
  | cons c cs ih => rw [Command.relocateAll, ih, List.map_cons]

theorem Command.relocateAll_concat (f : Pos → Pos) (cs : List Command) (c : Command) :
    Command.relocateAll f (cs ++ [c]) = Command.relocateAll f cs ++ [c.relocate f] := by
  simp only [Command.relocateAll_eq_map, List.map_append, List.map_cons, List.map_nil]

theorem relocated_bind {γ δ : Type} {g : γ → γ} {g' : δ → δ} {k k' : γ → Except ReadError δ}
    (h : ∀ a, k' (g a) = relocated f g' (k a)) (x : Except ReadError γ) :
    relocated f g x >>= k' = relocated f g' (x >>= k) := by
  cases x with
  | ok a => exact h a
  | error e => rfl

namespace Reading

/-! ## States that stand elsewhere -/

section Definitions

variable (f : Pos → Pos)

def OpenTest.relocate (t : OpenTest) : OpenTest := ⟨t.name, Argument.mapAll f id t.arguments, f t.pos⟩

def OpenList.relocate (l : OpenList) : OpenList :=
  ⟨l.parent.relocate f, l.tests.map (Argument.mapTest f id), f l.opening⟩

def Holder.relocate : Holder → Holder
  | .single parent => .single (parent.relocate f)
  | .list l => .list (l.relocate f)

def Frame.relocate (fr : Frame) : Frame :=
  ⟨fr.head.relocate f, f fr.opening, Command.relocateAll f fr.before⟩

def Phase.relocate : Phase → Phase
  | .statement => .statement
  | .arguments head => .arguments (head.relocate f)
  | .testArguments head holders test =>
    .testArguments (head.relocate f) (holders.map (·.relocate f)) (test.relocate f)
  | .testName head holders list =>
    .testName (head.relocate f) (holders.map (·.relocate f)) (list.relocate f)
  | .testEnd head holders list =>
    .testEnd (head.relocate f) (holders.map (·.relocate f)) (list.relocate f)
  | .ended head => .ended (head.relocate f)

def State.relocate (s : State) : State where
  pending := s.pending.map (·.relocate f)
  frames := s.frames.map (·.relocate f)
  commands := Command.relocateAll f s.commands
  phase := s.phase.relocate f

end Definitions

/-! ## Steps -/

theorem close_relocate (test : OpenTest) (tests : List (Test Pos)) :
    (test.relocate f).close (tests.map (Argument.mapTest f id)) =
      Argument.mapTest f id (test.close tests) := by
  rw [OpenTest.close, OpenTest.close, Argument.mapTest, Argument.mapAll_eq_map f id (tests.map _)]
  simp only [List.map_map]
  rfl

theorem closeTest_relocate (head : Head) (test : Test Pos) (holders : List Holder) :
    closeTest (head.relocate f) (Argument.mapTest f id test) (holders.map (·.relocate f)) =
      (closeTest head test holders).relocate f := by
  induction holders generalizing test with
  | nil =>
      simp only [List.map_nil, closeTest, Phase.relocate, Head.relocate, Argument.mapAll_concat]
      rfl
  | cons holder holders ih =>
      cases holder with
      | single parent =>
          rw [List.map_cons, closeTest, ← ih, ← close_relocate]
          rfl
      | list l =>
          simp only [List.map_cons, closeTest, Holder.relocate, Phase.relocate, OpenList.relocate,
            List.map_append, List.map_nil]

theorem checkDepth_relocate (hf : Pos.IsShift f) (o : ReadOptions) (depth : Nat) (p : Pos) :
    checkDepth o depth (f p) = relocated f id (checkDepth o depth p) := by
  unfold checkDepth
  rw [hf.line, hf.column]
  split <;> rfl

theorem openTest_relocate (hf : Pos.IsShift f) (o : ReadOptions) (s : State) (head : Head)
    (holders : List Holder) (name : String) (p : Pos) :
    openTest o (s.relocate f) (head.relocate f) (holders.map (·.relocate f)) name (f p) =
      relocated f (State.relocate f) (openTest o s head holders name p) := by
  have hdepth : testDepth (s.relocate f).frames (holders.map (·.relocate f)) =
      testDepth s.frames holders := by
    rw [testDepth, testDepth, State.relocate, List.length_map, List.length_map]
  rw [openTest, openTest, hdepth, checkDepth_relocate hf]
  cases checkDepth o (testDepth s.frames holders) p <;> rfl

theorem stepStatement_relocate (s : State) (t : Token) :
    stepStatement (s.relocate f) (t.relocate f) =
      relocated f (State.relocate f) (stepStatement s t) := by
  unfold stepStatement
  rw [show (t.relocate f).item = t.item from rfl]
  split
  · rfl
  · rw [State.relocate]
    cases s.frames with
    | nil => rfl
    | cons fr frames =>
        refine congrArg Except.ok ?_
        simp only [State.relocate, Command.relocateAll_concat]
        rfl
  · rfl

theorem stepEnd_relocate (hf : Pos.IsShift f) (o : ReadOptions) (s : State) (head : Head) (t : Token) :
    stepEnd o (s.relocate f) (head.relocate f) (t.relocate f) =
      relocated f (State.relocate f) (stepEnd o s head t) := by
  unfold stepEnd
  rw [show (head.relocate f).name = head.name from rfl, show (t.relocate f).item = t.item from rfl]
  split
  · split
    · rfl
    · refine congrArg Except.ok ?_
      simp only [push, State.relocate, Command.relocateAll_concat]
      rfl
  · split
    · rfl
    · have hlength : (s.relocate f).frames.length = s.frames.length := List.length_map _
      rw [hlength, show (t.relocate f).pos = f t.pos from rfl, checkDepth_relocate hf]
      cases checkDepth o (s.frames.length + 1) t.pos <;> rfl
  · rfl

theorem stepTestEnd_relocate (s : State) (head : Head) (holders : List Holder) (list : OpenList)
    (t : Token) :
    stepTestEnd (s.relocate f) (head.relocate f) (holders.map (·.relocate f)) (list.relocate f)
        (t.relocate f) =
      relocated f (State.relocate f) (stepTestEnd s head holders list t) := by
  unfold stepTestEnd
  rw [show (t.relocate f).item = t.item from rfl]
  split
  · rfl
  · have hclose : (list.relocate f).parent.close (list.relocate f).tests =
        Argument.mapTest f id (list.parent.close list.tests) := close_relocate list.parent list.tests
    rw [hclose, closeTest_relocate]
    rfl
  · rfl

theorem stepClosed_relocate (hf : Pos.IsShift f) (o : ReadOptions) (s : State) (t : Token)
    (phase : Phase) :
    stepClosed o (s.relocate f) (t.relocate f) (phase.relocate f) =
      relocated f (State.relocate f) (stepClosed o s t phase) := by
  cases phase with
  | testEnd head holders list => exact stepTestEnd_relocate s head holders list t
  | ended head => exact stepEnd_relocate hf o s head t
  | statement | arguments | testArguments | testName => rfl

theorem argument?_relocate (t : Token) :
    argument? (t.relocate f) = (argument? t).map (relocated f (·.map f id)) := by
  obtain ⟨item, p⟩ := t
  cases item with
  | number text =>
      simp only [argument?, Token.relocate]
      cases number text <;> rfl
  | strings values => simp [argument?, Token.relocate, relocated, Argument.map]
  | _ => rfl

theorem step_relocate (hf : Pos.IsShift f) (o : ReadOptions) (s : State) (t : Token) :
    step o (s.relocate f) (t.relocate f) = relocated f (State.relocate f) (step o s t) := by
  obtain ⟨pending, frames, commands, phase⟩ := s
  by_cases hcomment : ∃ text, t.item = .comment text
  · obtain ⟨item, p⟩ := t
    obtain ⟨text, rfl⟩ := hcomment
    simp only [step, Token.relocate, relocated, State.relocate, List.map_append, List.map_cons,
      List.map_nil]
    rfl
  have hargument := argument?_relocate (f := f) t
  cases phase with
  | statement =>
      have hstatement := stepStatement_relocate (f := f) ⟨pending, frames, commands, .statement⟩ t
      obtain ⟨item, p⟩ := t
      cases item with
      | comment text => exact absurd ⟨text, rfl⟩ hcomment
      | _ => exact hstatement
  | arguments head =>
      have hopen := openTest_relocate hf o ⟨pending, frames, commands, .arguments head⟩ head []
      have hend := stepEnd_relocate hf o ⟨pending, frames, commands, .arguments head⟩ head t
      cases hfound : argument? t with
      | some a =>
          rw [hfound] at hargument
          have hmoved := step_arguments (o := o) hargument
            (State.relocate f ⟨pending, frames, commands, .statement⟩) (head.relocate f)
          have hplain := step_arguments (o := o) hfound ⟨pending, frames, commands, .statement⟩ head
          refine hmoved.trans ((relocated_bind (fun a => ?_) a).trans (congrArg _ hplain.symm))
          simp only [relocated, State.relocate, Phase.relocate, Head.relocate, Argument.mapAll_concat]
      | none =>
          obtain ⟨item, p⟩ := t
          cases item with
          | comment text => exact absurd ⟨text, rfl⟩ hcomment
          | quoted | multiline | strings | tag | number => cases hfound
          | openParen => rfl
          | identifier name => exact hopen name p
          | _ => exact hend
  | testArguments head holders test =>
      have hopen := openTest_relocate hf o
        ⟨pending, frames, commands, .testArguments head holders test⟩ head (.single test :: holders)
      have hclosed := stepClosed_relocate hf o
        ⟨pending, frames, commands, .testArguments head holders test⟩ t
        (closeTest head (test.close []) holders)
      rw [← closeTest_relocate, ← close_relocate] at hclosed
      cases hfound : argument? t with
      | some a =>
          rw [hfound] at hargument
          have hmoved := step_testArguments (o := o) hargument
            (State.relocate f ⟨pending, frames, commands, .statement⟩) (head.relocate f)
            (holders.map (·.relocate f)) (test.relocate f)
          have hplain := step_testArguments (o := o) hfound ⟨pending, frames, commands, .statement⟩ head
            holders test
          refine hmoved.trans ((relocated_bind (fun a => ?_) a).trans (congrArg _ hplain.symm))
          simp only [relocated, State.relocate, Phase.relocate, OpenTest.relocate, Argument.mapAll_concat]
      | none =>
          obtain ⟨item, p⟩ := t
          cases item with
          | comment text => exact absurd ⟨text, rfl⟩ hcomment
          | quoted | multiline | strings | tag | number => cases hfound
          | openParen => rfl
          | identifier name => exact hopen name p
          | _ => exact hclosed
  | testName head holders list =>
      have hopen := openTest_relocate hf o
        ⟨pending, frames, commands, .testName head holders list⟩ head (.list list :: holders)
      obtain ⟨item, p⟩ := t
      cases item with
      | comment text => exact absurd ⟨text, rfl⟩ hcomment
      | identifier name => exact hopen name p
      | closeParen =>
          simp only [step, Token.relocate, State.relocate, Phase.relocate, OpenList.relocate,
            List.isEmpty_map]
          split <;> rfl
      | _ => rfl
  | testEnd head holders list =>
      have hend := stepTestEnd_relocate (f := f)
        ⟨pending, frames, commands, .testEnd head holders list⟩ head holders list t
      obtain ⟨item, p⟩ := t
      cases item with
      | comment text => exact absurd ⟨text, rfl⟩ hcomment
      | _ => exact hend
  | ended head =>
      have hend := stepEnd_relocate hf o ⟨pending, frames, commands, .ended head⟩ head t
      obtain ⟨item, p⟩ := t
      cases item with
      | comment text => exact absurd ⟨text, rfl⟩ hcomment
      | _ => exact hend

/-! ## Runs -/

theorem finish_relocate (hf : Pos.IsShift f) (s : State) (stop : Option Pos) :
    finish (s.relocate f) (stop.map f) = relocated f (Block.relocate f) (finish s stop) := by
  obtain ⟨pending, frames, commands, phase⟩ := s
  -- An error is told at the end of the input, or where it has no place, at another one that moved.
  have herror : ∀ (fault : Fault) (p q : Pos), q = f p →
      (.error (.at fault ((stop.map f).getD q)) : Except ReadError Block) =
        relocated f (Block.relocate f) (.error (.at fault (stop.getD p))) := by
    rintro fault p _ rfl
    cases stop <;> rfl
  have hwhole : (.ok ⟨Command.relocateAll f commands, pending.map (·.relocate f), .nowhere⟩ :
      Except ReadError Block) =
        relocated f (Block.relocate f) (.ok ⟨commands, pending, .nowhere⟩) := by
    rw [relocated, Block.relocate, hf.nowhere]
  cases phase with
  | statement =>
      cases frames with
      | nil => exact hwhole
      | cons fr frames => rfl
  | arguments head | ended head => exact herror _ head.mark _ rfl
  | testArguments head holders test =>
      have hclose := closeTest_relocate (f := f) head (test.close []) holders
      rw [← close_relocate, List.map_nil] at hclose
      simp only [finish, State.relocate, Phase.relocate, hclose]
      cases closeTest head (test.close []) holders with
      | statement =>
          cases frames with
          | nil => exact hwhole
          | cons fr frames => rfl
      | testEnd head holders list => rfl
      | arguments head | testArguments head | testName head | ended head => exact herror _ head.mark _ rfl
  | testName head holders list => exact herror _ .nowhere _ hf.nowhere.symm
  | testEnd head holders list => rfl

theorem run_relocate (hf : Pos.IsShift f) (o : ReadOptions) (s : State) (ts : List Token) :
    run o (s.relocate f) (ts.map (·.relocate f)) = relocated f (Block.relocate f) (run o s ts) := by
  induction ts generalizing s with
  | nil => exact finish_relocate hf s none
  | cons t ts ih =>
      rw [List.map_cons, run, run, show (t.relocate f).item = t.item from rfl]
      split
      · exact finish_relocate hf s (some t.pos)
      · rw [step_relocate hf]
        exact relocated_bind (fun s' => ih s') (step o s t)

/-! ## Scripts -/

theorem declared?_mapAll (f : Pos → Pos) (as : List (Argument Pos)) :
    declared? (Argument.mapAll f id as) = declared? as := by
  rcases as with _ | ⟨a, _ | ⟨b, as⟩⟩
  · rfl
  · cases a <;> simp [Argument.mapAll, Argument.map, declared?]
  · cases a <;> rfl

theorem head_relocate (c : Command) : (c.relocate f).head = c.head.relocate f := by
  cases c <;> rfl

theorem block?_relocate (c : Command) : (c.relocate f).block? = c.block?.map (Block.relocate f) := by
  cases c <;> rfl

theorem ofParts_relocate (head : Head) (b : Option Block) :
    Command.ofParts (head.relocate f) (b.map (Block.relocate f)) = (Command.ofParts head b).relocate f := by
  cases b <;> rfl

theorem assemble_relocate (hf : Pos.IsShift f) (b : Block) (filename : String) :
    assemble (b.relocate f) filename = (assemble b filename).relocate f := by
  obtain ⟨commands, trailing, p⟩ := b
  have hstart : f ⟨1, 1, 0⟩ = ⟨1, 1, 0⟩ := hf.start
  cases commands with
  | nil => simp only [assemble, Block.relocate, Command.relocateAll, Script.relocate, hstart]
  | cons c rest =>
      have hparts := ofParts_relocate (f := f) { c.head with arguments := [] } c.block?
      have hkeyword : (c.head.relocate f).keyword? = c.head.keyword? := rfl
      have hdeclared : declared? (c.head.relocate f).arguments = declared? c.head.arguments :=
        declared?_mapAll f c.head.arguments
      simp only [assemble, Block.relocate, Command.relocateAll, head_relocate, block?_relocate, hkeyword,
        hdeclared]
      split
      · cases declared? c.head.arguments with
        | none => simp only [Script.relocate, Block.relocate, Command.relocateAll, hstart]
        | some names =>
            simp only [Script.relocate, Block.relocate, Command.relocateAll, ← hparts, hstart]
            rfl
      · simp only [Script.relocate, Block.relocate, Command.relocateAll, hstart]

end Reading

theorem Script.ofTokens_relocate (hf : Pos.IsShift f) (ts : List Token) (filename : String)
    (o : ReadOptions) :
    ofTokens (ts.map (·.relocate f)) filename o =
      relocated f (Script.relocate f) (ofTokens ts filename o) := by
  have hrun := Reading.run_relocate hf o .start ts
  rw [ofTokens, ofTokens]
  rw [show Reading.State.relocate f .start = .start from rfl] at hrun
  rw [hrun]
  cases Reading.run o .start ts with
  | error e => rfl
  | ok b => exact congrArg Except.ok (Reading.assemble_relocate hf b filename)

/-! ## Outlines -/

section Outlines

variable (f : Pos → Pos) (g : List String → List String)

theorem Comment.outlineAll_relocate (cs : List Comment) :
    Comment.outlineAll g (cs.map (·.relocate f)) = Comment.outlineAll g cs := by
  simp only [Comment.outlineAll, List.map_map]
  rfl

theorem Head.outline_relocate (h : Head) : (h.relocate f).outline g = h.outline g := by
  rw [Head.relocate, Head.outline, Head.outline, Argument.outlineAll_mapAll,
    Comment.outlineAll_relocate]

mutual

theorem Command.outline_relocate : ∀ c : Command, (c.relocate f).outline g = c.outline g
  | .simple h => congrArg Command.simple (Head.outline_relocate f g h)
  | .control h cs trailing _ => by
      rw [Command.relocate, Command.outline, Command.outline, Head.outline_relocate,
        Command.outlineAll_relocateAll cs, Comment.outlineAll_relocate]

theorem Command.outlineAll_relocateAll : ∀ cs : List Command,
    Command.outlineAll g (Command.relocateAll f cs) = Command.outlineAll g cs
  | [] => rfl
  | c :: cs => by
      rw [Command.relocateAll, Command.outlineAll, Command.outlineAll, Command.outline_relocate c,
        Command.outlineAll_relocateAll cs]

end

theorem Script.outline_relocate (s : Script) : (s.relocate f).outline g = s.outline g := by
  simp only [Script.relocate, Block.relocate, Script.outline, Script.commands,
    Command.outlineAll_relocateAll, Comment.outlineAll_relocate]

end Outlines

end MailFilter
