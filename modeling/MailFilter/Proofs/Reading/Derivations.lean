import MailFilter.Proofs.Reading.Acceptance

/-!
# What is read is derived

A state that a reader comes to from the start is the state of a derivation that is not finished yet, and
the tokens of that derivation are those that have been read.  One more token goes on with the derivation,
or it is a syntax error.
-/

namespace MailFilter.Grammar

open Reading

variable {r : Registry} {limit : Value}

/-! ## Derivations that are not finished -/

/-- An open list of tests, with a comma after each of them. -/
structure ListPart where
  parent : Phrase
  opening : Pos
  tests : List (TestTree × Pos)

inductive HolderPart where
  | single (parent : Phrase)
  | list (list : ListPart)

/-- An open block, with the commands before the command that it belongs to. -/
structure FramePart (r : Registry) where
  before : List (CommandTree r)
  head : HeadTree
  opening : Pos
  h : r.isControl? head.phrase.name ≠ some false

inductive PhasePart where
  | statement
  | arguments (phrase : Phrase)
  | testArguments (phrase : Phrase) (holders : List HolderPart) (test : Phrase)
  | testName (phrase : Phrase) (holders : List HolderPart) (list : ListPart)
  | testEnd (phrase : Phrase) (holders : List HolderPart) (list : ListPart) (last : TestTree)
  | ended (head : HeadTree)

structure Part (r : Registry) where
  frames : List (FramePart r)
  commands : List (CommandTree r)
  phase : PhasePart

def Part.start : Part r := ⟨[], [], .statement⟩

/-! ## Tokens -/

def ListPart.tokens (l : ListPart) : List Token :=
  l.parent.tokens ++ ⟨.openParen, l.opening⟩ ::
    l.tests.flatMap fun test => test.1.tokens ++ [⟨.comma, test.2⟩]

def HolderPart.tokens : HolderPart → List Token
  | single parent => parent.tokens
  | list l => l.tokens

/-- The innermost test comes first among the holders and last among the tokens. -/
def HolderPart.tokensAll (holders : List HolderPart) : List Token :=
  holders.reverse.flatMap HolderPart.tokens

def FramePart.tokens (f : FramePart r) : List Token :=
  CommandTree.tokensAll f.before ++ f.head.tokens ++ [⟨.openBrace, f.opening⟩]

def FramePart.tokensAll (frames : List (FramePart r)) : List Token :=
  frames.reverse.flatMap FramePart.tokens

def PhasePart.tokens : PhasePart → List Token
  | statement => []
  | arguments phrase => phrase.tokens
  | testArguments phrase holders test => phrase.tokens ++ HolderPart.tokensAll holders ++ test.tokens
  | testName phrase holders list => phrase.tokens ++ HolderPart.tokensAll holders ++ list.tokens
  | testEnd phrase holders list last =>
    phrase.tokens ++ HolderPart.tokensAll holders ++ list.tokens ++ last.tokens
  | ended head => head.tokens

def Part.tokens (d : Part r) : List Token :=
  FramePart.tokensAll d.frames ++ CommandTree.tokensAll d.commands ++ d.phase.tokens

/-! ## States -/

def ListPart.openList (l : ListPart) : OpenList :=
  ⟨l.parent.openTest, l.tests.map (·.1.test), l.opening⟩

def HolderPart.holder : HolderPart → Holder
  | single parent => .single parent.openTest
  | list l => .list l.openList

def FramePart.frame (f : FramePart r) : Frame :=
  ⟨f.head.head, f.opening, CommandTree.commandAll f.before⟩

def PhasePart.phase : PhasePart → Phase
  | statement => .statement
  | arguments phrase => .arguments phrase.head
  | testArguments phrase holders test =>
    .testArguments phrase.head (holders.map HolderPart.holder) test.openTest
  | testName phrase holders list => .testName phrase.head (holders.map HolderPart.holder) list.openList
  | testEnd phrase holders list last =>
    .testEnd phrase.head (holders.map HolderPart.holder)
      { list.openList with tests := list.openList.tests ++ [last.test] }
  | ended head => .ended head.head

def Part.state (d : Part r) : State :=
  ⟨[], d.frames.map FramePart.frame, CommandTree.commandAll d.commands, d.phase.phase⟩

/-! ## Lists -/

theorem CommandTree.tokensAll_concat (cs : List (CommandTree r)) (c : CommandTree r) :
    tokensAll (cs ++ [c]) = tokensAll cs ++ c.tokens := by
  induction cs with
  | nil => rw [List.nil_append, tokensAll, tokensAll, tokensAll, List.append_nil, List.nil_append]
  | cons b cs ih => rw [List.cons_append, tokensAll, tokensAll, ih, List.append_assoc]

theorem CommandTree.commandAll_concat (cs : List (CommandTree r)) (c : CommandTree r) :
    commandAll (cs ++ [c]) = commandAll cs ++ [c.command] := by
  induction cs with
  | nil => rfl
  | cons b cs ih => rw [List.cons_append, commandAll, commandAll, ih, List.cons_append]

theorem HolderPart.tokensAll_cons (holder : HolderPart) (holders : List HolderPart) :
    tokensAll (holder :: holders) = tokensAll holders ++ holder.tokens := by
  rw [tokensAll, List.reverse_cons, List.flatMap_append, List.flatMap_singleton, tokensAll]

theorem FramePart.tokensAll_cons (f : FramePart r) (frames : List (FramePart r)) :
    tokensAll (f :: frames) = tokensAll frames ++ f.tokens := by
  rw [tokensAll, List.reverse_cons, List.flatMap_append, List.flatMap_singleton, tokensAll]

theorem HolderPart.length_le (holders : List HolderPart) :
    holders.length ≤ (tokensAll holders).length := by
  induction holders with
  | nil => exact Nat.zero_le _
  | cons holder holders ih =>
      have hpos : 0 < holder.tokens.length := by
        cases holder with
        | single parent => exact parent.length_tokens_pos
        | list l =>
            rw [tokens, ListPart.tokens, List.length_append]
            exact Nat.lt_add_right _ l.parent.length_tokens_pos
      rw [tokensAll_cons, List.length_append, List.length_cons]
      omega

theorem FramePart.length_le (frames : List (FramePart r)) :
    frames.length ≤ (tokensAll frames).length := by
  induction frames with
  | nil => exact Nat.zero_le _
  | cons f frames ih =>
      rw [tokensAll_cons, List.length_append, List.length_cons, tokens, List.length_append,
        List.length_singleton]
      omega

/-! ## Closing tests -/

/-- The tests of a list, of which all but the last have a comma after them. -/
def TestsTree.ofList (last : TestTree) : List (TestTree × Pos) → TestsTree
  | [] => .last last
  | (test, comma) :: rest => .cons test comma (ofList last rest)

theorem TestsTree.tests_ofList (last : TestTree) (tests : List (TestTree × Pos)) :
    (ofList last tests).tests = tests.map (·.1.test) ++ [last.test] := by
  induction tests with
  | nil => rfl
  | cons test rest ih => rw [ofList, TestsTree.tests, ih, List.map_cons, List.cons_append]

theorem TestsTree.tokens_ofList (last : TestTree) (tests : List (TestTree × Pos)) :
    (ofList last tests).tokens =
      (tests.flatMap fun test => test.1.tokens ++ [⟨.comma, test.2⟩]) ++ last.tokens := by
  induction tests with
  | nil => rfl
  | cons test rest ih =>
      rw [ofList, TestsTree.tokens, ih, List.flatMap_cons]
      simp only [List.append_assoc, List.cons_append, List.nil_append]

def ListPart.close (l : ListPart) (last : TestTree) (closing : Pos) : TestTree :=
  .list l.parent l.opening (.ofList last l.tests) closing

theorem ListPart.test_close (l : ListPart) (last : TestTree) (closing : Pos) :
    (l.close last closing).test = l.openList.parent.close (l.openList.tests ++ [last.test]) := by
  rw [close, TestTree.test, TestsTree.tests_ofList]
  rfl

theorem ListPart.tokens_close (l : ListPart) (last : TestTree) (closing : Pos) :
    (l.close last closing).tokens = l.tokens ++ last.tokens ++ [⟨.closeParen, closing⟩] := by
  rw [close, TestTree.tokens, TestsTree.tokens_ofList, tokens]
  simp only [List.append_assoc, List.cons_append]

def PhasePart.close (phrase : Phrase) (test : TestTree) : List HolderPart → PhasePart
  | [] => .ended ⟨phrase, some test⟩
  | .single parent :: holders => close phrase (.single parent test) holders
  | .list l :: holders => .testEnd phrase holders l test

theorem PhasePart.phase_close (phrase : Phrase) (test : TestTree) (holders : List HolderPart) :
    (close phrase test holders).phase =
      closeTest phrase.head test.test (holders.map HolderPart.holder) := by
  fun_induction close phrase test holders with
  | case1 => rfl
  | case2 test parent holders ih => rw [ih]; rfl
  | case3 => rfl

theorem PhasePart.tokens_close (phrase : Phrase) (test : TestTree) (holders : List HolderPart) :
    (close phrase test holders).tokens =
      phrase.tokens ++ HolderPart.tokensAll holders ++ test.tokens := by
  fun_induction close phrase test holders with
  | case1 test =>
      rw [tokens, HeadTree.tokens, Option.toList_some, List.flatMap_singleton]
      exact congrArg (· ++ _) (List.append_nil _).symm
  | case2 test parent holders ih =>
      rw [ih, TestTree.tokens, HolderPart.tokensAll_cons, HolderPart.tokens]
      simp only [List.append_assoc]
  | case3 test l holders =>
      rw [tokens, HolderPart.tokensAll_cons, HolderPart.tokens]
      simp only [List.append_assoc]

theorem PhasePart.close_cases (phrase : Phrase) (test : TestTree) (holders : List HolderPart) :
    (∃ head, close phrase test holders = .ended head) ∨
      ∃ outer list last, close phrase test holders = .testEnd phrase outer list last := by
  fun_induction close phrase test holders with
  | case1 => exact .inl ⟨_, rfl⟩
  | case2 test parent holders ih => exact ih
  | case3 => exact .inr ⟨_, _, _, rfl⟩

/-! ## Steps -/

/-- What tokens come to: a derivation that is not finished, or a syntax error. -/
inductive Comes (r : Registry) (ts : List Token) : Except ReadError State → Prop
  | part (d : Part r) {s : State} (hstate : d.state = s) (htokens : d.tokens = ts) : Comes r ts (.ok s)
  | refused (e : SyntaxError) : Comes r ts (.error (.invalid e))

variable (frames : List (FramePart r)) (commands : List (CommandTree r)) {ts : List Token}

theorem comes_openTest (phase : Phase) (phrase : Phrase) (holders : List HolderPart) (name : String)
    (p : Pos) (hdepth : Permits ⟨r, limit⟩ (frames.length + 1 + holders.length))
    (hts : FramePart.tokensAll frames ++ CommandTree.tokensAll commands ++
      (phrase.tokens ++ HolderPart.tokensAll holders ++ [⟨.identifier name, p⟩]) = ts) :
    Comes r ts (openTest ⟨r, limit⟩
      ⟨[], frames.map FramePart.frame, CommandTree.commandAll commands, phase⟩ phrase.head
      (holders.map HolderPart.holder) name p) := by
  have hcheck := hdepth _ p (by omega) (Nat.le_refl _)
  rw [openTest, testDepth, List.length_map, List.length_map, hcheck]
  exact .part ⟨frames, commands, .testArguments phrase holders ⟨name, p, []⟩⟩ rfl hts

theorem comes_stepEnd (phase : Phase) (head : HeadTree) (t : Token)
    (hdepth : Permits ⟨r, limit⟩ (frames.length + 1))
    (hts : FramePart.tokensAll frames ++ CommandTree.tokensAll commands ++ (head.tokens ++ [t]) = ts) :
    Comes r ts (stepEnd ⟨r, limit⟩
      ⟨[], frames.map FramePart.frame, CommandTree.commandAll commands, phase⟩ head.head t) := by
  obtain ⟨item, p⟩ := t
  unfold stepEnd
  dsimp only
  rw [head.isControl?_head]
  cases item with
  | semicolon =>
      dsimp only
      split
      · exact .refused _
      · next hcontrol =>
          refine .part ⟨frames, commands ++ [.simple head p (by simpa using hcontrol)], .statement⟩ ?_ ?_
          · rw [Part.state, CommandTree.commandAll_concat]
            rfl
          · rw [Part.tokens, CommandTree.tokensAll_concat, CommandTree.tokens, ← hts]
            simp only [PhasePart.tokens, List.append_assoc, List.append_nil]
  | openBrace =>
      dsimp only
      split
      · exact .refused _
      · next hcontrol =>
          rw [List.length_map, hdepth _ p (Nat.succ_pos _) (Nat.le_refl _)]
          refine .part ⟨⟨commands, head, p, by simpa using hcontrol⟩ :: frames, [], .statement⟩ rfl ?_
          rw [Part.tokens, FramePart.tokensAll_cons, FramePart.tokens, CommandTree.tokensAll, ← hts]
          simp only [PhasePart.tokens, List.append_assoc, List.append_nil]
  | _ => exact .refused _

theorem comes_stepTestEnd (phase : Phase) (phrase : Phrase) (holders : List HolderPart)
    (list : ListPart) (last : TestTree) (t : Token)
    (hts : FramePart.tokensAll frames ++ CommandTree.tokensAll commands ++
      (phrase.tokens ++ HolderPart.tokensAll holders ++ list.tokens ++ last.tokens ++ [t]) = ts) :
    Comes r ts (stepTestEnd
      ⟨[], frames.map FramePart.frame, CommandTree.commandAll commands, phase⟩ phrase.head
      (holders.map HolderPart.holder) { list.openList with tests := list.openList.tests ++ [last.test] } t) := by
  obtain ⟨item, p⟩ := t
  cases item with
  | comma =>
      refine .part ⟨frames, commands,
        .testName phrase holders { list with tests := list.tests ++ [(last, p)] }⟩ ?_ ?_
      · simp only [Part.state, PhasePart.phase, ListPart.openList, List.map_append, List.map_cons,
          List.map_nil]
      · simp only [Part.tokens, PhasePart.tokens, ListPart.tokens, List.flatMap_append, ← hts,
          List.append_assoc, List.cons_append, List.flatMap_singleton]
  | closeParen =>
      refine .part ⟨frames, commands, .close phrase (list.close last p) holders⟩ ?_ ?_
      · rw [Part.state, PhasePart.phase_close, ListPart.test_close]
      · rw [Part.tokens, PhasePart.tokens_close, ListPart.tokens_close, ← hts]
        simp only [List.append_assoc]
  | _ => exact .refused _

theorem comes_stepClosed (phase : Phase) (phrase : Phrase) (test : TestTree)
    (holders : List HolderPart) (t : Token) (hdepth : Permits ⟨r, limit⟩ (frames.length + 1))
    (hts : FramePart.tokensAll frames ++ CommandTree.tokensAll commands ++
      (phrase.tokens ++ HolderPart.tokensAll holders ++ test.tokens ++ [t]) = ts) :
    Comes r ts (stepClosed ⟨r, limit⟩
      ⟨[], frames.map FramePart.frame, CommandTree.commandAll commands, phase⟩ t
      (closeTest phrase.head test.test (holders.map HolderPart.holder))) := by
  have htokens := PhasePart.tokens_close phrase test holders
  rw [← PhasePart.phase_close]
  rcases PhasePart.close_cases phrase test holders with ⟨head, hclose⟩ | ⟨outer, list, last, hclose⟩
  · rw [hclose] at htokens ⊢
    exact comes_stepEnd frames commands phase head t hdepth (by rw [← hts, ← htokens]; rfl)
  · rw [hclose] at htokens ⊢
    exact comes_stepTestEnd frames commands phase phrase outer list last t
      (by rw [← hts, ← htokens]; rfl)

theorem exists_argument {t : Token} {x : Except ReadError (Argument Pos)} (hread : Readable t)
    (h : argument? t = some x) : ∃ a : ArgumentTree, a.token = t ∧ x = .ok a.argument := by
  have hargument : ∀ a : ArgumentTree, a.token = t →
      ∃ a : ArgumentTree, a.token = t ∧ x = .ok a.argument := by
    rintro a rfl
    rw [argument?_token hread] at h
    exact ⟨a, rfl, (Option.some.inj h).symm⟩
  obtain ⟨item, p⟩ := t
  cases item with
  | quoted value => exact hargument (.quoted value p) rfl
  | multiline value => exact hargument (.multiline value p) rfl
  | strings values => exact hargument (.strings values p) rfl
  | number text => exact hargument (.number text p) rfl
  | tag name => exact hargument (.tag name p) rfl
  | _ => cases h

def Phrase.concat (phrase : Phrase) (a : ArgumentTree) : Phrase :=
  { phrase with arguments := phrase.arguments ++ [a] }

theorem Phrase.tokens_concat (phrase : Phrase) (a : ArgumentTree) :
    (phrase.concat a).tokens = phrase.tokens ++ [a.token] := by
  rw [tokens, concat, List.map_append]
  rfl

theorem Phrase.head_concat (phrase : Phrase) (a : ArgumentTree) :
    (phrase.concat a).head =
      { phrase.head with arguments := phrase.head.arguments ++ [a.argument] } := by
  rw [head, concat, List.map_append]
  rfl

theorem Phrase.openTest_concat (phrase : Phrase) (a : ArgumentTree) :
    (phrase.concat a).openTest =
      { phrase.openTest with arguments := phrase.openTest.arguments ++ [a.argument] } := by
  rw [Phrase.openTest, concat, List.map_append]
  rfl

theorem HeadTree.head_none (phrase : Phrase) : (HeadTree.mk phrase none).head = phrase.head := by
  rw [head, Option.toList_none, List.map_nil, List.append_nil]

theorem HeadTree.tokens_none (phrase : Phrase) : (HeadTree.mk phrase none).tokens = phrase.tokens :=
  List.append_nil _

theorem length_frames_le (d : Part r) : d.frames.length ≤ d.tokens.length := by
  have hle := FramePart.length_le d.frames
  rw [Part.tokens, List.length_append, List.length_append]
  omega

theorem length_holders_le {phase : PhasePart} (phrase : Phrase) (holders : List HolderPart)
    {us : List Token} (h : phase.tokens = phrase.tokens ++ HolderPart.tokensAll holders ++ us) :
    frames.length + 1 + holders.length + us.length ≤ (Part.tokens ⟨frames, commands, phase⟩).length := by
  have hframes := FramePart.length_le frames
  have hholders := HolderPart.length_le holders
  have hphrase := phrase.length_tokens_pos
  rw [Part.tokens, h, List.length_append, List.length_append, List.length_append, List.length_append]
  dsimp only
  omega

theorem comes_step_arguments (phrase : Phrase) {t : Token} (hread : Readable t)
    (hcomment : t.item.isComment = false) (hdepth : Permits ⟨r, limit⟩ (frames.length + 1)) :
    Comes r (Part.tokens ⟨frames, commands, .arguments phrase⟩ ++ [t])
      (step ⟨r, limit⟩ (Part.state ⟨frames, commands, .arguments phrase⟩) t) := by
  cases hargument : argument? t with
  | some x =>
      obtain ⟨a, rfl, rfl⟩ := exists_argument hread hargument
      have hstep := takesArguments_command (o := ⟨r, limit⟩) phrase.head
        (Part.state ⟨frames, commands, .arguments phrase⟩) a.token a.argument phrase.head.arguments
        hargument
      rw [show step ⟨r, limit⟩ (Part.state ⟨frames, commands, .arguments phrase⟩) a.token = _ from hstep]
      refine .part ⟨frames, commands, .arguments (phrase.concat a)⟩ ?_ ?_
      · rw [Part.state, PhasePart.phase, Phrase.head_concat]
        rfl
      · simp only [Part.tokens, PhasePart.tokens, Phrase.tokens_concat, List.append_assoc]
  | none =>
      have hend := comes_stepEnd frames commands (.arguments phrase.head) ⟨phrase, none⟩ t hdepth rfl
      rw [HeadTree.head_none, HeadTree.tokens_none, ← List.append_assoc] at hend
      obtain ⟨item, p⟩ := t
      cases item with
      | quoted | multiline | strings | number | tag => cases hargument
      | comment => cases hcomment
      | identifier name =>
          refine comes_openTest frames commands (.arguments phrase.head) phrase [] name p hdepth ?_
          simp only [Part.tokens, PhasePart.tokens, HolderPart.tokensAll, List.reverse_nil,
            List.flatMap_nil, List.append_nil, List.append_assoc]
      | openParen => exact .refused _
      | _ => exact hend

theorem comes_step_testArguments (phrase : Phrase) (holders : List HolderPart) (test : Phrase)
    {t : Token} (hread : Readable t) (hcomment : t.item.isComment = false)
    (hdepth : Permits ⟨r, limit⟩ (frames.length + 1 + (holders.length + 1))) :
    Comes r (Part.tokens ⟨frames, commands, .testArguments phrase holders test⟩ ++ [t])
      (step ⟨r, limit⟩ (Part.state ⟨frames, commands, .testArguments phrase holders test⟩) t) := by
  cases hargument : argument? t with
  | some x =>
      obtain ⟨a, rfl, rfl⟩ := exists_argument hread hargument
      have hstep := takesArguments_test (o := ⟨r, limit⟩) phrase.head
        (holders.map HolderPart.holder) test.openTest
        (Part.state ⟨frames, commands, .testArguments phrase holders test⟩) a.token a.argument
        test.openTest.arguments hargument
      rw [show step ⟨r, limit⟩ (Part.state ⟨frames, commands, .testArguments phrase holders test⟩)
        a.token = _ from hstep]
      refine .part ⟨frames, commands, .testArguments phrase holders (test.concat a)⟩ ?_ ?_
      · rw [Part.state, PhasePart.phase, Phrase.openTest_concat]
        rfl
      · simp only [Part.tokens, PhasePart.tokens, Phrase.tokens_concat, List.append_assoc]
  | none =>
      -- Unless a test comes next, the test ends here, with all tests that take it alone.
      have hclosed := comes_stepClosed frames commands
        (PhasePart.testArguments phrase holders test).phase phrase (.plain test) holders t
        (hdepth.mono (by omega)) rfl
      rw [TestTree.tokens, ← List.append_assoc] at hclosed
      obtain ⟨item, p⟩ := t
      cases item with
      | quoted | multiline | strings | number | tag => cases hargument
      | comment => cases hcomment
      | identifier name =>
          refine comes_openTest frames commands _ phrase (.single test :: holders) name p hdepth ?_
          simp only [Part.tokens, PhasePart.tokens, HolderPart.tokensAll_cons, HolderPart.tokens,
            List.append_assoc]
      | openParen =>
          refine .part ⟨frames, commands, .testName phrase holders ⟨test, p, []⟩⟩ rfl ?_
          simp only [Part.tokens, PhasePart.tokens, ListPart.tokens, List.flatMap_nil,
            List.append_assoc]
      | _ => exact hclosed

theorem comes_step_testName (phrase : Phrase) (holders : List HolderPart) (list : ListPart)
    {t : Token} (hcomment : t.item.isComment = false)
    (hdepth : Permits ⟨r, limit⟩ (frames.length + 1 + (holders.length + 1))) :
    Comes r (Part.tokens ⟨frames, commands, .testName phrase holders list⟩ ++ [t])
      (step ⟨r, limit⟩ (Part.state ⟨frames, commands, .testName phrase holders list⟩) t) := by
  obtain ⟨item, p⟩ := t
  cases item with
  | comment => cases hcomment
  | identifier name =>
      refine comes_openTest frames commands _ phrase (.list list :: holders) name p hdepth ?_
      simp only [Part.tokens, PhasePart.tokens, HolderPart.tokensAll_cons, HolderPart.tokens,
        List.append_assoc]
  | closeParen =>
      simp only [step, Part.state, PhasePart.phase]
      split
      · exact .refused _
      · exact .refused _
  | _ => exact .refused _

/-- One more token goes on with a derivation, or it is a syntax error. -/
theorem comes_step (d : Part r) {t : Token} (hread : Readable t) (hcomment : t.item.isComment = false)
    (hdepth : Permits ⟨r, limit⟩ (d.tokens.length + 1)) :
    Comes r (d.tokens ++ [t]) (step ⟨r, limit⟩ d.state t) := by
  have hframes := length_frames_le d
  have hframes : Permits ⟨r, limit⟩ (d.frames.length + 1) := hdepth.mono (by omega)
  obtain ⟨frames, commands, phase⟩ := d
  cases phase with
  | statement =>
      obtain ⟨item, p⟩ := t
      cases item with
      | comment => cases hcomment
      | identifier name =>
          refine .part ⟨frames, commands, .arguments ⟨name, p, []⟩⟩ rfl ?_
          rw [Part.tokens, Part.tokens, PhasePart.tokens, List.append_nil]
          rfl
      | closeBrace =>
          cases frames with
          | nil => exact .refused _
          | cons f frames =>
              refine .part
                ⟨frames, f.before ++ [.control f.head f.opening commands p f.h], .statement⟩ ?_ ?_
              · rw [Part.state, CommandTree.commandAll_concat, CommandTree.command]
                rfl
              · simp only [Part.tokens, PhasePart.tokens, FramePart.tokensAll_cons, FramePart.tokens,
                  CommandTree.tokensAll_concat, CommandTree.tokens, List.append_assoc,
                  List.cons_append, List.nil_append, List.append_nil]
      | _ => exact .refused _
  | arguments phrase => exact comes_step_arguments frames commands phrase hread hcomment hframes
  | testArguments phrase holders test =>
      have hholders := length_holders_le frames commands phrase holders
        (show (PhasePart.testArguments phrase holders test).tokens = _ from rfl)
      exact comes_step_testArguments frames commands phrase holders test hread hcomment
        (hdepth.mono (by omega))
  | testName phrase holders list =>
      have hholders := length_holders_le frames commands phrase holders
        (show (PhasePart.testName phrase holders list).tokens = _ from rfl)
      exact comes_step_testName frames commands phrase holders list hcomment
        (hdepth.mono (by omega))
  | testEnd phrase holders list last =>
      have hend := comes_stepTestEnd frames commands
        (PhasePart.testEnd phrase holders list last).phase phrase holders list last t rfl
      rw [← List.append_assoc] at hend
      obtain ⟨item, p⟩ := t
      cases item with
      | comment => cases hcomment
      | _ => exact hend
  | ended head =>
      have hend := comes_stepEnd frames commands (.ended head.head) head t hframes rfl
      rw [← List.append_assoc] at hend
      obtain ⟨item, p⟩ := t
      cases item with
      | comment => cases hcomment
      | _ => exact hend

/-! ## Runs -/

theorem finish_part (d : Part r) (stop : Option Pos) :
    (∃ e : ScriptTree r, e.tokens = d.tokens ++ stop.toList.map (⟨.endOfInput, ·⟩)) ∨
      ∃ e, finish d.state stop = .error (.invalid e) := by
  obtain ⟨frames, commands, phase⟩ := d
  cases phase with
  | statement =>
      cases frames with
      | nil =>
          refine .inl ⟨⟨commands, stop⟩, ?_⟩
          rw [Part.tokens, PhasePart.tokens, List.append_nil]
          rfl
      | cons f frames => exact .inr ⟨_, rfl⟩
  | testArguments phrase holders test =>
      simp only [finish, Part.state, PhasePart.phase]
      rcases closeTest_cases phrase.head (test.openTest.close []) (holders.map HolderPart.holder) with
        ⟨head, hclose⟩ | ⟨outer, list, hclose⟩
      · rw [hclose]
        exact .inr ⟨_, rfl⟩
      · rw [hclose]
        exact .inr ⟨_, rfl⟩
  | _ => exact .inr ⟨_, rfl⟩

/-- Tokens that are read to their end are derived, and all others have a syntax error. -/
theorem run_part (d : Part r) (hread : ∀ t ∈ ts, Readable t)
    (hcomment : ∀ t ∈ ts, t.item.isComment = false)
    (hstop : ∀ us t vs, ts = us ++ t :: vs → t.item = .endOfInput → vs = [])
    (hdepth : Permits ⟨r, limit⟩ (d.tokens.length + ts.length)) :
    (∃ e : ScriptTree r, e.tokens = d.tokens ++ ts) ∨
      ∃ e, run ⟨r, limit⟩ d.state ts = .error (.invalid e) := by
  induction ts generalizing d with
  | nil => exact finish_part d none
  | cons t ts ih =>
      rw [run]
      by_cases hend : t.item = .endOfInput
      · obtain rfl := hstop [] t ts rfl hend
        obtain ⟨item, p⟩ := t
        obtain rfl := hend
        exact finish_part d (some p)
      · obtain ⟨ht, hts⟩ := List.forall_mem_cons.1 hread
        obtain ⟨hfirst, hrest⟩ := List.forall_mem_cons.1 hcomment
        rw [List.length_cons] at hdepth
        -- What is read grows by as much as what is left shrinks, so the bound on the depth stays.
        have hcomes := comes_step d ht hfirst (hdepth.mono (by omega))
        rw [if_neg (by simpa using hend)]
        generalize step ⟨r, limit⟩ d.state t = x at hcomes ⊢
        cases hcomes with
        | refused e => exact .inr ⟨e, rfl⟩
        | part d' hstate htokens =>
            subst hstate
            have hlater : ∀ us u vs, ts = us ++ u :: vs → u.item = .endOfInput → vs = [] :=
              fun us u vs heq => hstop (t :: us) u vs (congrArg (t :: ·) heq)
            have hnext := ih d' hts hrest hlater
              (hdepth.mono (by rw [htokens, List.length_append, List.length_singleton]; omega))
            rw [htokens, List.append_assoc] at hnext
            exact hnext

end MailFilter.Grammar
