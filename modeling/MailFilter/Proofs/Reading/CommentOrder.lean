import MailFilter.Proofs.Reading.Comments
import MailFilter.Proofs.Reading.Input
import MailFilter.Proofs.Reading.Shapes
import MailFilter.Proofs.Script.Outline

/-!
# Where comments go

The comments of a script, in the order of its tree, are the comments among its tokens: a reader drops
none, keeps none twice, and has them in the order they are written in.
-/

namespace MailFilter

/-! ## The comments of a tree -/

mutual

/-- The comments above a command, of the commands inside it, and at the end of its block. -/
def Command.comments : Command → List Comment
  | .simple head => head.comments
  | .control head commands trailing _ =>
    head.comments ++ (Command.commentsAll commands ++ trailing)

def Command.commentsAll : List Command → List Comment
  | [] => []
  | c :: cs => c.comments ++ Command.commentsAll cs

end

def Block.comments (b : Block) : List Comment := Command.commentsAll b.commands ++ b.trailing

def Script.comments (s : Script) : List Comment := s.block.comments

def Token.comment? (t : Token) : Option Comment :=
  match t.item with
  | .comment text => some ⟨text, t.pos⟩
  | _ => none

theorem Command.commentsAll_append (cs ds : List Command) :
    commentsAll (cs ++ ds) = commentsAll cs ++ commentsAll ds := by
  induction cs with
  | nil => rfl
  | cons c cs ih => rw [List.cons_append, commentsAll, commentsAll, ih, List.append_assoc]

theorem Command.commentsAll_single (c : Command) : commentsAll [c] = c.comments := by
  rw [commentsAll, commentsAll, List.append_nil]

theorem Token.comment?_of_isComment {t : Token} (h : t.item.isComment = false) : t.comment? = none := by
  unfold comment?
  split
  · next text hitem =>
      rw [hitem] at h
      cases h
  · rfl

/-! ## Trees without comments mean the same -/

theorem Head.alike_withoutComments (h : Head) : h.withoutComments.alike h = true := by
  rw [Head.alike, Bool.and_eq_true]
  exact ⟨beq_self_eq_true h.name, Argument.allAlike_of_outline _ _ rfl⟩

mutual

theorem Command.alike_withoutComments (c : Command) : c.withoutComments.alike c = true := by
  cases c with
  | simple head => exact head.alike_withoutComments
  | control head commands trailing opening =>
      rw [Command.withoutComments, Command.alike, Bool.and_eq_true]
      exact ⟨head.alike_withoutComments, Command.allAlike_withoutComments commands⟩

theorem Command.allAlike_withoutComments (cs : List Command) :
    Command.allAlike (Command.allWithoutComments cs) cs = true := by
  cases cs with
  | nil => rfl
  | cons c cs =>
      rw [Command.allWithoutComments, Command.allAlike, Bool.and_eq_true]
      exact ⟨c.alike_withoutComments, Command.allAlike_withoutComments cs⟩

end

theorem Script.alike_withoutComments (s : Script) : s.withoutComments.alike s = true := by
  rw [Script.alike, Bool.and_eq_true]
  exact ⟨beq_self_eq_true s.capabilities, Command.allAlike_withoutComments s.block.commands⟩

namespace Reading

variable {o : ReadOptions} {s s' : State} {head : Head Pos} {holders : List Holder} {t : Token}

/-! ## The comments of a state -/

/-- The comments before an open block, from the opening of the block around it on. -/
def Frame.comments (f : Frame) : List Comment := Command.commentsAll f.before ++ f.head.comments

def Phase.comments : Phase → List Comment
  | .statement => []
  | .arguments head | .testArguments head _ _ | .testName head _ _ | .testEnd head _ _
  | .ended head => head.comments

/-- The comments in front of the block at hand, the outermost block first. -/
def framesComments : List Frame → List Comment
  | [] => []
  | f :: frames => framesComments frames ++ f.comments

/-- The comments that have been read, in the order of what is written. -/
def State.comments (s : State) : List Comment :=
  framesComments s.frames ++ (Command.commentsAll s.commands ++ (s.phase.comments ++ s.pending))

theorem comments_closeTest (head : Head Pos) (test : Test Pos) (holders : List Holder) :
    (closeTest head test holders).comments = head.comments := by
  fun_induction closeTest head test holders with
  | case1 => rfl
  | case2 _ _ _ ih => exact ih
  | case3 => rfl

theorem comments_finished (phase : Phase) : phase.finished.comments = phase.comments := by
  cases phase with
  | testArguments head holders test => exact comments_closeTest head (test.close []) holders
  | statement | arguments | testName | testEnd | ended => rfl

theorem comment?_of_argument {a : Except ReadError (Argument Pos)} (h : argument? t = some a) :
    t.comment? = none := by
  obtain ⟨item, p⟩ := t
  refine Token.comment?_of_isComment ?_
  cases item with
  | comment text => cases h
  | _ => rfl

theorem comments_phase {phase : Phase} (h : phase.comments = s.phase.comments) :
    State.comments { s with phase } = s.comments := by
  rw [State.comments, State.comments, h]

/-! ## Steps -/

/-- A token adds the comment that it is, and nothing else.  One that is no comment moves what is known
from one place of the state to the next one. -/
theorem comments_moves (h : Moves o s t s') : s'.comments = s.comments ++ t.comment?.toList := by
  have hplain : t.comment? = none → ∀ {s' : State}, s'.comments = s.comments →
      s'.comments = s.comments ++ t.comment?.toList := fun hnone s' heq => by
    rw [hnone, heq, Option.toList_none, List.append_nil]
  have hsign : ∀ {item : Item}, t.item = item → item.isComment = false → t.comment? = none :=
    fun ht hitem => Token.comment?_of_isComment (ht ▸ hitem)
  cases h with
  | comment text ht =>
      rw [Token.comment?, ht, State.comments, State.comments]
      simp only [List.append_assoc, Option.toList_some]
  | command name hat ht =>
      refine hplain (hsign ht rfl) ?_
      simp only [State.comments, hat, Phase.comments, List.append_nil, List.nil_append]
  | closeBrace f frames hat hframes ht =>
      -- The block that closes takes the pending comments, and goes to the commands around it.
      refine hplain (hsign ht rfl) ?_
      simp only [State.comments, hat, hframes, framesComments, Frame.comments, Phase.comments,
        Command.commentsAll_append, Command.commentsAll_single, Command.comments, List.append_assoc,
        List.append_nil, List.nil_append]
  | argument head a hat ht => exact hplain (comment?_of_argument ht) (comments_phase (hat ▸ rfl))
  | testArgument head holders test a hat ht =>
      exact hplain (comment?_of_argument ht) (comments_phase (hat ▸ rfl))
  | test head holders name hat ht hdepth =>
      refine hplain (hsign ht rfl) (comments_phase ?_)
      cases hphase : s.phase <;> rw [hphase] at hat <;> cases hat <;> rfl
  | openParen head holders test hat ht => exact hplain (hsign ht rfl) (comments_phase (hat ▸ rfl))
  | comma head holders list hat ht =>
      refine hplain (hsign ht rfl) (comments_phase ?_)
      rw [← comments_finished s.phase, hat]
      rfl
  | closeParen head holders list hat ht =>
      refine hplain (hsign ht rfl) (comments_phase ?_)
      rw [← comments_finished s.phase, hat, comments_closeTest]
      rfl
  | semicolon head hat ht hname =>
      refine hplain (hsign ht rfl) ?_
      rw [State.comments, State.comments, ← comments_finished s.phase, hat]
      simp only [push, Command.commentsAll_append, Command.commentsAll_single, Command.comments,
        Phase.comments, List.nil_append, List.append_assoc]
  | openBrace head hat ht hname hdepth =>
      refine hplain (hsign ht rfl) ?_
      rw [State.comments, State.comments, ← comments_finished s.phase, hat]
      simp only [framesComments, Frame.comments, Command.commentsAll, Phase.comments, List.append_assoc,
        List.nil_append]

/-! ## Runs -/

theorem comments_finish {stop : Option Pos} {b : Block} (h : finish s stop = .ok b) :
    b.comments = s.comments := by
  obtain ⟨hphase, hframes, rfl⟩ := eq_of_finish h
  rw [State.comments, hphase, hframes]
  rfl

theorem comments_run {ts : List Token} {b : Block} (hend : ∀ t ∈ ts, t.item ≠ .endOfInput)
    (p : Pos) (h : run o s (ts ++ [⟨.endOfInput, p⟩]) = .ok b) :
    b.comments = s.comments ++ ts.filterMap Token.comment? := by
  induction ts generalizing s with
  | nil =>
      rw [List.nil_append, run, if_pos (beq_self_eq_true _)] at h
      rw [comments_finish h, List.filterMap_nil, List.append_nil]
  | cons t ts ih =>
      obtain ⟨ht, hts⟩ := List.forall_mem_cons.mp hend
      rcases cases_of_run h with ⟨hitem, -⟩ | ⟨s', hmoves, h⟩
      · exact absurd hitem ht
      · rw [ih hts h, comments_moves hmoves, List.append_assoc, List.filterMap_cons]
        cases t.comment? <;> rfl

theorem comments_assemble (b : Block) (filename : String) :
    (assemble b filename).comments = b.comments := by
  obtain ⟨commands, trailing, p⟩ := b
  unfold assemble
  split
  · next c rest hcs =>
      cases hcs
      split
      · split
        · have hbare : (withoutArguments c).comments = c.comments := by cases c <;> rfl
          rw [Script.comments, Block.comments, Block.comments, Command.commentsAll,
            Command.commentsAll]
          exact congrArg (fun own => own ++ Command.commentsAll rest ++ trailing) hbare
        · rfl
      · rfl
  · rfl

end Reading

namespace Script

/-- Up to the end of the input, a script has the comments that its tokens are. -/
theorem comments_of_ofTokens {ts : List Token} {p : Pos} {filename : String} {o : ReadOptions}
    {t : Script} (hend : ∀ t ∈ ts, t.item ≠ .endOfInput)
    (h : ofTokens (ts ++ [⟨.endOfInput, p⟩]) filename o = .ok t) :
    t.comments = ts.filterMap Token.comment? := by
  obtain ⟨b, hrun, h⟩ := ok_of_bind h
  cases h
  rw [Reading.comments_assemble, Reading.comments_run hend p hrun]
  rfl

/-- Comments are read past, whatever commands a reader knows and however deep it may go: without them
there are the same errors and scripts that mean the same.  A script has each of them once, with its
place, in the order they are written in. -/
theorem ofTokens_comments {charset source : String} {tokens : List Token}
    (h : (Tokens.ofText source charset).complete = .ok tokens) (filename : String)
    (o : ReadOptions) :
    (∀ e, ofTokens (tokens.filter (!·.item.isComment)) filename o = .error e ↔
      ofTokens tokens filename o = .error e) ∧
    ∀ t, ofTokens tokens filename o = .ok t →
      (∃ u, ofTokens (tokens.filter (!·.item.isComment)) filename o = .ok u ∧
        u = t.withoutComments ∧ u.alike t = true) ∧
      t.comments = tokens.filterMap Token.comment? := by
  have hpast := ofTokens_withoutComments tokens filename o
  refine ⟨fun e => ?_, fun t ht => ⟨⟨t.withoutComments, ?_, rfl, t.alike_withoutComments⟩, ?_⟩⟩
  · rw [hpast]
    cases ofTokens tokens filename o with
    | error e' =>
        change Except.error e' = Except.error e ↔ Except.error e' = Except.error e
        exact Iff.rfl
    | ok t => exact ⟨(nomatch ·), (nomatch ·)⟩
  · rw [hpast, ht]
    rfl
  · obtain ⟨ts, p, rfl, hsound⟩ := Reading.sound_of_complete h
    have hend : ∀ t ∈ ts, t.item ≠ .endOfInput := by
      intro t ht hitem
      have hitems := hsound t ht
      rw [hitem] at hitems
      exact hitems
    rw [comments_of_ofTokens hend ht, List.filterMap_append]
    exact (List.append_nil _).symm

/-- Comments in every kind of place: above commands, in the arguments of a command, in a list of
tests, at the end of a block, and after everything. -/
def commented : String :=
  "# a\nif /* b */ anyof (true, # c\n false) # d\n\x7b keep /* e */ ; # f\n\x7d\nstop;\n# g\n"

theorem ofTokens_comments_commented : ∃ tokens t,
    (Tokens.ofText commented).complete = .ok tokens ∧
      ofTokens tokens "f" .default = .ok t ∧ t.comments = tokens.filterMap Token.comment? := by
  obtain ⟨tokens, htokens⟩ := exists_ok_of_isOk
    (show (Tokens.ofText commented).complete.isOk = true by decide +kernel)
  have hread : (Script.ofText commented "f" .default).isOk = true := by decide +kernel
  rw [Script.ofText, Script.ofTextIn, htokens] at hread
  obtain ⟨t, ht⟩ := exists_ok_of_isOk hread
  exact ⟨tokens, t, htokens, ht, ((ofTokens_comments htokens "f" .default).2 t ht).2⟩

end Script

end MailFilter
