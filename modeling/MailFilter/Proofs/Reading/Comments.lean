import MailFilter.Script.Reading

/-!
# Reading past comments

Comments wait for the next command or for the end of the block, and nothing else depends on them: a
reader comes to the same tree or the same error without them, up to the comments of the tree.
-/

namespace MailFilter

/-! ## Trees without comments -/

def Head.withoutComments (h : Head) : Head := { h with comments := [] }

mutual

def Command.withoutComments : Command → Command
  | .simple head => .simple head.withoutComments
  | .control head commands _ opening =>
    .control head.withoutComments (Command.allWithoutComments commands) [] opening

def Command.allWithoutComments : List Command → List Command
  | [] => []
  | c :: cs => c.withoutComments :: Command.allWithoutComments cs

end

def Block.withoutComments (b : Block) : Block :=
  { b with commands := Command.allWithoutComments b.commands, trailing := [] }

def Script.withoutComments (s : Script) : Script := { s with block := s.block.withoutComments }

theorem Command.allWithoutComments_append (cs ds : List Command) :
    allWithoutComments (cs ++ ds) = allWithoutComments cs ++ allWithoutComments ds := by
  induction cs with
  | nil => rfl
  | cons c cs ih => rw [List.cons_append, allWithoutComments, ih, allWithoutComments, List.cons_append]

theorem Command.head_withoutComments (c : Command) :
    c.withoutComments.head = c.head.withoutComments := by
  cases c <;> rfl

theorem Command.block?_withoutComments (c : Command) :
    c.withoutComments.block? = c.block?.map Block.withoutComments := by
  cases c <;> rfl

theorem Command.ofParts_withoutComments (head : Head) (b : Option Block) :
    ofParts head.withoutComments (b.map Block.withoutComments) = (ofParts head b).withoutComments := by
  cases b <;> rfl

namespace Reading

/-! ## States without comments -/

def Frame.withoutComments (f : Frame) : Frame :=
  { f with head := f.head.withoutComments, before := Command.allWithoutComments f.before }

def Phase.withoutComments : Phase → Phase
  | .statement => .statement
  | .arguments head => .arguments head.withoutComments
  | .testArguments head holders test => .testArguments head.withoutComments holders test
  | .testName head holders list => .testName head.withoutComments holders list
  | .testEnd head holders list => .testEnd head.withoutComments holders list
  | .ended head => .ended head.withoutComments

def State.withoutComments (s : State) : State where
  pending := []
  frames := s.frames.map Frame.withoutComments
  commands := Command.allWithoutComments s.commands
  phase := s.phase.withoutComments

theorem step_comment (o : ReadOptions) (s : State) {t : Token} {text : String}
    (h : t.item = .comment text) :
    ∃ s', step o s t = .ok s' ∧ s'.withoutComments = s.withoutComments := by
  refine ⟨{ s with pending := s.pending ++ [⟨text, t.pos⟩] }, ?_, rfl⟩
  unfold step
  rw [h]

theorem closeTest_withoutComments (head : Head) (test : Test Pos) (holders : List Holder) :
    closeTest head.withoutComments test holders = (closeTest head test holders).withoutComments := by
  induction holders generalizing test with
  | nil => rfl
  | cons holder holders ih =>
      cases holder with
      | single parent => exact ih _
      | list l => rfl

theorem openTest_withoutComments (o : ReadOptions) (s : State) (head : Head) (holders : List Holder)
    (name : String) (p : Pos) :
    openTest o s.withoutComments head.withoutComments holders name p =
      (openTest o s head holders name p).map State.withoutComments := by
  have hdepth : testDepth s.withoutComments.frames holders = testDepth s.frames holders := by
    rw [testDepth, testDepth, State.withoutComments, List.length_map]
  rw [openTest, openTest, hdepth]
  cases checkDepth o (testDepth s.frames holders) p <;> rfl

theorem stepStatement_withoutComments (s : State) (t : Token) :
    stepStatement s.withoutComments t = (stepStatement s t).map State.withoutComments := by
  unfold stepStatement
  split
  · rfl
  · rw [State.withoutComments]
    cases s.frames with
    | nil => rfl
    | cons f frames =>
        refine congrArg Except.ok ?_
        simp only [State.withoutComments, Command.allWithoutComments_append]
        rfl
  · rfl

theorem stepEnd_withoutComments (o : ReadOptions) (s : State) (head : Head) (t : Token) :
    stepEnd o s.withoutComments head.withoutComments t =
      (stepEnd o s head t).map State.withoutComments := by
  unfold stepEnd
  have hname : head.withoutComments.name = head.name := rfl
  rw [hname]
  split
  · split
    · rfl
    · refine congrArg Except.ok ?_
      simp only [push, State.withoutComments, Command.allWithoutComments_append]
      rfl
  · split
    · rfl
    · have hlength : s.withoutComments.frames.length = s.frames.length := List.length_map _
      rw [hlength]
      cases checkDepth o (s.frames.length + 1) t.pos <;> rfl
  · rfl

theorem stepTestEnd_withoutComments (s : State) (head : Head) (holders : List Holder)
    (list : OpenList) (t : Token) :
    stepTestEnd s.withoutComments head.withoutComments holders list t =
      (stepTestEnd s head holders list t).map State.withoutComments := by
  unfold stepTestEnd
  split
  · rfl
  · rw [closeTest_withoutComments]
    rfl
  · rfl

theorem stepClosed_withoutComments (o : ReadOptions) (s : State) (t : Token) (phase : Phase) :
    stepClosed o s.withoutComments t phase.withoutComments =
      (stepClosed o s t phase).map State.withoutComments := by
  cases phase with
  | testEnd head holders list => exact stepTestEnd_withoutComments s head holders list t
  | ended head => exact stepEnd_withoutComments o s head t
  | statement | arguments | testArguments | testName => rfl

/-- A token that is no comment does the same without comments. -/
theorem step_withoutComments (o : ReadOptions) (s : State) {t : Token}
    (h : t.item.isComment = false) :
    step o s.withoutComments t = (step o s t).map State.withoutComments := by
  obtain ⟨pending, frames, commands, phase⟩ := s
  obtain ⟨item, p⟩ := t
  cases phase with
  | statement =>
      have hstatement := stepStatement_withoutComments ⟨pending, frames, commands, .statement⟩ ⟨item, p⟩
      cases item with
      | comment text => cases h
      | _ => exact hstatement
  | arguments head =>
      have hopen := openTest_withoutComments o ⟨pending, frames, commands, .arguments head⟩ head []
      have hend := stepEnd_withoutComments o ⟨pending, frames, commands, .arguments head⟩ head ⟨item, p⟩
      cases item with
      | comment text => cases h
      | quoted | multiline | strings | tag | openParen => rfl
      | number text =>
          simp only [step, argument?, State.withoutComments, Phase.withoutComments]
          cases number text <;> rfl
      | identifier name => exact hopen name p
      | _ => exact hend
  | testArguments head holders test =>
      have hopen := openTest_withoutComments o
        ⟨pending, frames, commands, .testArguments head holders test⟩ head (.single test :: holders)
      have hclosed := stepClosed_withoutComments o
        ⟨pending, frames, commands, .testArguments head holders test⟩ ⟨item, p⟩
        (closeTest head (test.close []) holders)
      rw [← closeTest_withoutComments] at hclosed
      cases item with
      | comment text => cases h
      | quoted | multiline | strings | tag | openParen => rfl
      | number text =>
          simp only [step, argument?, State.withoutComments, Phase.withoutComments]
          cases number text <;> rfl
      | identifier name => exact hopen name p
      | _ => exact hclosed
  | testName head holders list =>
      have hopen := openTest_withoutComments o
        ⟨pending, frames, commands, .testName head holders list⟩ head (.list list :: holders)
      cases item with
      | comment text => cases h
      | identifier name => exact hopen name p
      | closeParen =>
          simp only [step, State.withoutComments, Phase.withoutComments]
          split <;> rfl
      | _ => rfl
  | testEnd head holders list =>
      have hend := stepTestEnd_withoutComments
        ⟨pending, frames, commands, .testEnd head holders list⟩ head holders list ⟨item, p⟩
      cases item with
      | comment text => cases h
      | _ => exact hend
  | ended head =>
      have hend := stepEnd_withoutComments o ⟨pending, frames, commands, .ended head⟩ head ⟨item, p⟩
      cases item with
      | comment text => cases h
      | _ => exact hend

/-! ## Runs -/

theorem finish_withoutComments (s : State) (stop : Option Pos) :
    finish s.withoutComments stop = (finish s stop).map Block.withoutComments := by
  obtain ⟨pending, frames, commands, phase⟩ := s
  cases phase with
  | statement => cases frames <;> rfl
  | testArguments head holders test =>
      simp only [finish, State.withoutComments, Phase.withoutComments, closeTest_withoutComments]
      cases closeTest head (test.close []) holders with
      | statement => cases frames <;> rfl
      | _ => rfl
  | _ => rfl

theorem run_withoutComments (o : ReadOptions) (s : State) (ts : List Token) :
    run o s.withoutComments (ts.filter (!·.item.isComment)) =
      (run o s ts).map Block.withoutComments := by
  induction ts generalizing s with
  | nil => exact finish_withoutComments s none
  | cons t ts ih =>
      cases hcomment : t.item.isComment with
      | true =>
          obtain ⟨text, hitem⟩ : ∃ text, t.item = .comment text := by
            unfold Item.isComment at hcomment
            split at hcomment
            · next text heq => exact ⟨text, heq⟩
            · cases hcomment
          obtain ⟨s', hstep, heq⟩ := step_comment o s hitem
          rw [List.filter_cons_of_neg (by simp [hcomment]), run, if_neg (by simp [hitem]), hstep,
            ← heq]
          exact ih s'
      | false =>
          rw [List.filter_cons_of_pos (by simp [hcomment]), run, run]
          split
          · exact finish_withoutComments s (some t.pos)
          · rw [step_withoutComments o s hcomment]
            cases step o s t with
            | error e => rfl
            | ok s' => exact ih s'

theorem assemble_withoutComments (b : Block) (filename : String) :
    assemble b.withoutComments filename = (assemble b filename).withoutComments := by
  obtain ⟨commands, trailing, p⟩ := b
  cases commands with
  | nil => rfl
  | cons c rest =>
      have hparts := Command.ofParts_withoutComments { c.head with arguments := [] } c.block?
      simp only [assemble, Block.withoutComments, Command.allWithoutComments,
        Command.head_withoutComments, Command.block?_withoutComments]
      have hkeyword : c.head.withoutComments.keyword? = c.head.keyword? := rfl
      have harguments : c.head.withoutComments.arguments = c.head.arguments := rfl
      rw [hkeyword, harguments]
      split
      · cases declared? c.head.arguments with
        | none => rfl
        | some names =>
            simp only [Script.withoutComments, Block.withoutComments, Command.allWithoutComments,
              ← hparts]
            rfl
      · rfl

end Reading

/-- The comments among the tokens make no difference but for the comments of the script. -/
theorem Script.ofTokens_withoutComments (ts : List Token) (filename : String) (o : ReadOptions) :
    ofTokens (ts.filter (!·.item.isComment)) filename o =
      (ofTokens ts filename o).map Script.withoutComments := by
  have hrun : Reading.run o .start (ts.filter (!·.item.isComment)) =
      (Reading.run o .start ts).map Block.withoutComments :=
    Reading.run_withoutComments o .start ts
  rw [ofTokens, ofTokens, hrun]
  cases Reading.run o .start ts with
  | error e => rfl
  | ok b => exact congrArg Except.ok (Reading.assemble_withoutComments b filename)

end MailFilter
