import MailFilter.Proofs.Reading.Commands
import MailFilter.Proofs.Reading.Grammar
import MailFilter.Proofs.Script.Names

/-!
# What the grammar derives is read

The tokens of a derivation lead a reader from any open block back to that block, with the commands of
the derivation in it.  A test or a block takes one token at least, so a limit of as many levels as there
are tokens never stops the reader.
-/

namespace MailFilter

theorem Keyword.ofName?_normalName (name : String) : ofName? (normalName name) = ofName? name := by
  unfold normalName
  split
  · rw [ofName?, Text.lower_lower, ofName?]
  · rfl

theorem Registry.isControl?_normalName (r : Registry) (name : String) :
    r.isControl? (Keyword.normalName name) = r.isControl? name := by
  rw [isControl?, lookup?, Keyword.ofName?_normalName, isControl?, lookup?]

namespace Grammar

open Reading

variable {o : ReadOptions} {r : Registry} {limit : Value} {s : State}

/-! ## Phrases -/

/-- A number among the tokens has the form that a text gives it, and few enough digits to be read. -/
def Readable (t : Token) : Prop :=
  ∀ text, t.item = .number text →
    Lexeme.isNumber text.toList = true ∧ text.toList.countP Char.isDigit ≤ Text.maxDigits

theorem argument?_token {a : ArgumentTree} (h : Readable a.token) :
    argument? a.token = some (.ok a.argument) := by
  cases a with
  | number text p =>
      obtain ⟨hword, hshort⟩ := h text rfl
      simp only [argument?, ArgumentTree.token, number_of_short hword hshort]
      rfl
  | _ => rfl

theorem arguments_of_readable {as : List ArgumentTree}
    (has : ∀ t ∈ as.map ArgumentTree.token, Readable t) :
    List.Forall₂ (fun t a => argument? t = some (.ok a)) (as.map ArgumentTree.token)
      (as.map ArgumentTree.argument) := by
  rw [List.forall₂_map_left_iff, List.forall₂_map_right_iff, List.forall₂_same]
  exact fun a ha => argument?_token (has _ (List.mem_map_of_mem ha))

theorem reads_phrase {P : Phase} {head : Head} {holders : List Holder} (hopen : Opens head P holders)
    {phrase : Phrase} (hread : ∀ t ∈ phrase.tokens, Readable t)
    (hdepth : Permits o (testDepth s.frames holders)) :
    Reads o phrase.tokens { s with phase := P }
      { s with phase := .testArguments head holders phrase.openTest } := by
  have hstart := step_open hopen phrase.name hdepth phrase.pos
  have htakes := takesArguments_test (o := o) head holders
    ⟨Keyword.normalName phrase.name, [], phrase.pos⟩
  have hall := arguments_of_readable (List.forall_mem_cons.1 hread).2
  exact Reads.cons hstart (htakes.reads hall s [])

/-! ## Tests -/

theorem Phrase.length_tokens_pos (phrase : Phrase) : 0 < phrase.tokens.length :=
  Nat.succ_pos _

mutual

theorem reads_testTree : ∀ (d : TestTree) {P : Phase} {head : Head} {holders : List Holder} {s : State},
    Opens head P holders → (∀ t ∈ d.tokens, Readable t) →
    Permits o (s.frames.length + holders.length + d.tokens.length) →
    ReadsTest o d.tokens s P head holders d.test
  | .plain phrase, P, head, holders, s, hopen, hread, hdepth => by
      rw [TestTree.tokens] at hread hdepth
      have hpos := phrase.length_tokens_pos
      have hphrase := reads_phrase (s := s) hopen hread (hdepth.mono (by unfold testDepth; omega))
      rw [TestTree.tokens, TestTree.test, ← List.append_nil phrase.tokens]
      exact readsTest_plain.after hphrase
  | .single phrase d, P, head, holders, s, hopen, hread, hdepth => by
      rw [TestTree.tokens, List.forall_mem_append] at hread
      rw [TestTree.tokens, List.length_append] at hdepth
      have hpos := phrase.length_tokens_pos
      have hphrase := reads_phrase (s := s) hopen hread.1 (hdepth.mono (by unfold testDepth; omega))
      have hnext : Opens head (.testArguments head holders phrase.openTest) _ := .single holders _
      have hd := reads_testTree (s := s) d hnext hread.2
        (hdepth.mono (by rw [List.length_cons]; omega))
      exact (readsTest_alone hd).after hphrase
  | .list phrase opening ds closing, P, head, holders, s, hopen, hread, hdepth => by
      rw [TestTree.tokens, List.forall_mem_append, List.forall_mem_cons, List.forall_mem_append] at hread
      obtain ⟨hphrase, -, hds, -⟩ := hread
      rw [TestTree.tokens, List.length_append, List.length_cons, List.length_append] at hdepth
      have hpos := phrase.length_tokens_pos
      have hphrase := reads_phrase (s := s) hopen hphrase (hdepth.mono (by unfold testDepth; omega))
      have htests : ReadsTests o ds.tokens s head holders ⟨phrase.openTest, [], opening⟩ ds.tests :=
        reads_testsTree ds hds (hdepth.mono (by omega))
      exact (readsTest_parens htests).after hphrase

theorem reads_testsTree : ∀ (ds : TestsTree) {head : Head} {holders : List Holder} {list : OpenList}
    {s : State}, (∀ t ∈ ds.tokens, Readable t) →
    Permits o (s.frames.length + holders.length + 1 + ds.tokens.length) →
    ReadsTests o ds.tokens s head holders list ds.tests
  | .last d, head, holders, list, s, hread, hdepth => by
      rw [TestsTree.tokens] at hread hdepth
      have hnext : Opens head (.testName head holders list) _ := .list holders list
      have hd := reads_testTree (s := s) d hnext hread
        (hdepth.mono (by rw [List.length_cons]; omega))
      exact readsTests_last hd
  | .cons d comma ds, head, holders, list, s, hread, hdepth => by
      rw [TestsTree.tokens, List.forall_mem_append, List.forall_mem_cons] at hread
      obtain ⟨hd, -, hds⟩ := hread
      rw [TestsTree.tokens, List.length_append, List.length_cons] at hdepth
      have hnext : Opens head (.testName head holders list) _ := .list holders list
      have hd := reads_testTree (s := s) d hnext hd
        (hdepth.mono (by rw [List.length_cons]; omega))
      exact readsTests_cons hd (reads_testsTree ds hds (hdepth.mono (by omega)))

end

/-! ## Commands -/

theorem HeadTree.isControl?_head (r : Registry) (head : HeadTree) :
    r.isControl? head.head.name = r.isControl? head.phrase.name :=
  r.isControl?_normalName head.phrase.name

theorem reads_headTree (head : HeadTree) (hread : ∀ t ∈ head.tokens, Readable t) (frames : List Frame)
    (before : List Command) (hdepth : Permits o (frames.length + head.tokens.length)) :
    ∃ P, Reads o head.tokens ⟨[], frames, before, .statement⟩ ⟨[], frames, before, P⟩ ∧
      EndsHead o P head.head := by
  obtain ⟨phrase, test?⟩ := head
  rw [HeadTree.tokens, List.forall_mem_append] at hread
  rw [HeadTree.tokens, List.length_append] at hdepth
  have hstart : step o ⟨[], frames, before, .statement⟩ ⟨.identifier phrase.name, phrase.pos⟩ =
      .ok ⟨[], frames, before, .arguments ⟨Keyword.normalName phrase.name, [], [], phrase.pos⟩⟩ := rfl
  have htakes := takesArguments_command (o := o)
    ⟨Keyword.normalName phrase.name, [], [], phrase.pos⟩
  have hall := arguments_of_readable (List.forall_mem_cons.1 hread.1).2
  have hphrase : Reads o phrase.tokens ⟨[], frames, before, .statement⟩
      ⟨[], frames, before, .arguments phrase.head⟩ :=
    Reads.cons hstart (htakes.reads hall ⟨[], frames, before, .statement⟩ [])
  cases test? with
  | none =>
      refine ⟨_, hphrase.append Reads.nil, ?_⟩
      rw [HeadTree.head, Option.toList_none, List.map_nil, List.append_nil]
      exact endsHead_arguments phrase.head
  | some d =>
      rw [Option.toList_some, List.flatMap_singleton] at hread hdepth
      have hpos := phrase.length_tokens_pos
      have hopen : Opens phrase.head (.arguments phrase.head) [] := .command
      obtain ⟨P, hd, hclosing, hsettle⟩ := reads_testTree (s := ⟨[], frames, before, .statement⟩) d
        hopen hread.2 (hdepth.mono (by simp only [List.length_nil]; omega))
      refine ⟨P, ?_, endsHead_of_settle hclosing hsettle⟩
      rw [HeadTree.tokens, Option.toList_some, List.flatMap_singleton]
      exact hphrase.append hd

mutual

theorem reads_commandTree : ∀ (c : CommandTree r), (∀ t ∈ c.tokens, Readable t) →
    ∀ (frames : List Frame) (before : List Command),
      Permits ⟨r, limit⟩ (frames.length + c.tokens.length) →
      Reads ⟨r, limit⟩ c.tokens ⟨[], frames, before, .statement⟩
        ⟨[], frames, before ++ [c.command], .statement⟩
  | .simple head p hcontrol, hread, frames, before, hdepth => by
      rw [CommandTree.tokens, List.forall_mem_append] at hread
      rw [CommandTree.tokens, List.length_append] at hdepth
      obtain ⟨P, hhead, hends⟩ := reads_headTree head hread.1 frames before (hdepth.mono (by omega))
      refine hhead.append (Reads.single ?_)
      rw [hends _ _ _ p _ (.inl rfl), stepEnd]
      dsimp only
      rw [head.isControl?_head, if_neg (by simpa using hcontrol)]
      rfl
  | .control head p cs q hcontrol, hread, frames, before, hdepth => by
      rw [CommandTree.tokens, List.forall_mem_append, List.forall_mem_cons, List.forall_mem_append]
        at hread
      obtain ⟨hhead, -, hcs, -⟩ := hread
      rw [CommandTree.tokens, List.length_append, List.length_cons, List.length_append] at hdepth
      obtain ⟨P, hhead, hends⟩ := reads_headTree head hhead frames before (hdepth.mono (by omega))
      have hcs := reads_commandTrees cs hcs (⟨head.head, p, before⟩ :: frames) []
        (hdepth.mono (by rw [List.length_cons]; omega))
      refine hhead.append (Reads.cons ?_ (hcs.append (Reads.single rfl)))
      rw [hends _ _ _ p _ (.inr rfl), stepEnd]
      dsimp only
      rw [head.isControl?_head, if_neg (by simpa using hcontrol), hdepth _ p (by omega) (by omega)]
      rfl

theorem reads_commandTrees : ∀ (cs : List (CommandTree r)),
    (∀ t ∈ CommandTree.tokensAll cs, Readable t) →
    ∀ (frames : List Frame) (before : List Command),
      Permits ⟨r, limit⟩ (frames.length + (CommandTree.tokensAll cs).length) →
      Reads ⟨r, limit⟩ (CommandTree.tokensAll cs) ⟨[], frames, before, .statement⟩
        ⟨[], frames, before ++ CommandTree.commandAll cs, .statement⟩
  | [], _, frames, before, _ => by
      rw [CommandTree.commandAll, List.append_nil]
      exact Reads.nil
  | c :: cs, hread, frames, before, hdepth => by
      rw [CommandTree.tokensAll, List.forall_mem_append] at hread
      rw [CommandTree.tokensAll, List.length_append] at hdepth
      have hc := reads_commandTree c hread.1 frames before (hdepth.mono (by omega))
      have hcs := reads_commandTrees cs hread.2 frames (before ++ [c.command]) (hdepth.mono (by omega))
      rw [List.append_assoc] at hcs
      exact hc.append hcs

end

/-! ## Scripts -/

theorem run_tokens (d : ScriptTree r) (hread : ∀ t ∈ d.tokens, Readable t)
    (hdepth : Permits ⟨r, limit⟩ d.tokens.length) :
    run ⟨r, limit⟩ .start d.tokens = .ok ⟨CommandTree.commandAll d.commands, [], .nowhere⟩ := by
  rw [ScriptTree.tokens, List.forall_mem_append] at hread
  rw [ScriptTree.tokens, List.length_append] at hdepth
  have hcs := reads_commandTrees d.commands hread.1 [] [] (hdepth.mono (by simp))
  exact run_append hcs d.stop

theorem HeadTree.declared?_eq (head : HeadTree) :
    head.declared? =
      if Keyword.ofName? head.phrase.name = some .require then Reading.declared? head.head.arguments
      else none := by
  obtain ⟨⟨name, p, arguments⟩, test?⟩ := head
  rw [declared?]
  refine if_congr Iff.rfl ?_ rfl
  cases arguments with
  | nil => cases test? <;> rfl
  | cons a as =>
      cases as with
      | nil => cases test? <;> cases a <;> rfl
      | cons b bs => cases a <;> rfl

theorem CommandTree.head_command (c : CommandTree r) : c.command.head = c.head.head := by
  cases c <;> rw [command] <;> rfl

theorem CommandTree.bare_eq (c : CommandTree r) :
    c.bare = Command.ofParts { c.head.head with arguments := [] } c.command.block? := by
  cases c <;> rw [command] <;> rfl

theorem HeadTree.keyword?_head (head : HeadTree) :
    head.head.keyword? = Keyword.ofName? head.phrase.name := by
  have hname : head.head.name = Keyword.normalName head.phrase.name := rfl
  rw [Head.keyword?, hname, Leaf.text?_string, Option.bind_some, Keyword.ofName?_normalName]

theorem assemble_commands (d : ScriptTree r) (filename : String) :
    assemble ⟨CommandTree.commandAll d.commands, [], .nowhere⟩ filename = d.script filename := by
  obtain ⟨commands, stop⟩ := d
  unfold assemble ScriptTree.script
  cases commands with
  | nil => rfl
  | cons c cs =>
      rw [CommandTree.commandAll]
      dsimp only
      rw [c.head_command, c.head.keyword?_head, c.bare_eq]
      have hdeclared := c.head.declared?_eq
      by_cases hrequire : Keyword.ofName? c.head.phrase.name = some .require
      · rw [if_pos hrequire] at hdeclared
        rw [hdeclared]
        exact if_pos (by simpa using hrequire)
      · rw [if_neg hrequire] at hdeclared
        rw [hdeclared]
        exact if_neg (by simpa using hrequire)

/-- A list of tokens that the grammar derives is read as the script of its derivation. -/
theorem ofTokens_tokens (d : ScriptTree r) (hread : ∀ t ∈ d.tokens, Readable t)
    (hdepth : Permits ⟨r, limit⟩ d.tokens.length) (filename : String) :
    Script.ofTokens d.tokens filename ⟨r, limit⟩ = .ok (d.script filename) := by
  rw [Script.ofTokens, run_tokens d hread hdepth]
  exact congrArg Except.ok (assemble_commands d filename)

end Grammar

end MailFilter
