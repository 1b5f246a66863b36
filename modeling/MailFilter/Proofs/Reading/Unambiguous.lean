import MailFilter.Proofs.Reading.Grammar

/-!
# One derivation at most

One token decides how a derivation goes on: whether another argument comes, a test, tests in
parentheses, another command.  So two derivations of the same tokens are the same, whatever follows
these tokens, as long as it does not go on itself.
-/

namespace MailFilter.Grammar

variable {r : Registry} {us vs : List Token}

/-! ## Arguments -/

def NoArgument (ts : List Token) : Prop :=
  ∀ (a : ArgumentTree) (us : List Token), ts ≠ a.token :: us

theorem ArgumentTree.token_injective : Function.Injective token := by
  intro a b h
  cases a <;> cases b <;> cases h <;> rfl

theorem arguments_unique {as bs : List ArgumentTree} (hus : NoArgument us) (hvs : NoArgument vs)
    (h : as.map ArgumentTree.token ++ us = bs.map ArgumentTree.token ++ vs) : as = bs ∧ us = vs := by
  induction as generalizing bs with
  | nil =>
      cases bs with
      | nil => exact ⟨rfl, h⟩
      | cons b bs => exact absurd h (hus b _)
  | cons a as ih =>
      cases bs with
      | nil => exact absurd h.symm (hvs a _)
      | cons b bs =>
          obtain ⟨htoken, hrest⟩ := List.cons.inj h
          obtain ⟨rfl, rfl⟩ := ih hrest
          exact ⟨by rw [ArgumentTree.token_injective htoken], rfl⟩

theorem Phrase.unique {p q : Phrase} (hus : NoArgument us) (hvs : NoArgument vs)
    (h : p.tokens ++ us = q.tokens ++ vs) : p = q ∧ us = vs := by
  obtain ⟨name, pos, arguments⟩ := p
  obtain ⟨name', pos', arguments'⟩ := q
  simp only [tokens, List.cons_append, List.cons.injEq, Token.mk.injEq, Item.identifier.injEq] at h
  obtain ⟨⟨rfl, rfl⟩, hrest⟩ := h
  obtain ⟨rfl, rfl⟩ := arguments_unique hus hvs hrest
  exact ⟨rfl, rfl⟩

/-! ## Tests -/

/-- What may come after a test: a comma, a closing parenthesis, or the end of the command. -/
def FollowsTest : List Token → Prop
  | ⟨.comma, _⟩ :: _ | ⟨.closeParen, _⟩ :: _ | ⟨.semicolon, _⟩ :: _ | ⟨.openBrace, _⟩ :: _ => True
  | _ => False

theorem FollowsTest.noArgument (h : FollowsTest us) : NoArgument us := by
  rintro a us rfl
  cases a <;> exact h

theorem noArgument_identifier (name : String) (p : Pos) :
    NoArgument (⟨.identifier name, p⟩ :: us) := by
  intro a us h
  cases a <;> cases h

theorem noArgument_openParen (p : Pos) : NoArgument (⟨.openParen, p⟩ :: us) := by
  intro a us h
  cases a <;> cases h

def TestTree.phrase : TestTree → Phrase
  | plain phrase | single phrase _ | list phrase _ _ _ => phrase

/-- What stands in a test after its own arguments. -/
def TestTree.inner : TestTree → List Token
  | plain _ => []
  | single _ test => test.tokens
  | list _ opening tests closing => ⟨.openParen, opening⟩ :: (tests.tokens ++ [⟨.closeParen, closing⟩])

theorem TestTree.tokens_eq (d : TestTree) : d.tokens = d.phrase.tokens ++ d.inner := by
  cases d with
  | plain phrase => exact (List.append_nil _).symm
  | single | list => rw [tokens, phrase, inner]

theorem TestTree.exists_identifier (d : TestTree) :
    ∃ name p ts, d.tokens = ⟨.identifier name, p⟩ :: ts :=
  ⟨_, _, _, d.tokens_eq⟩

theorem TestTree.noArgument (d : TestTree) : NoArgument (d.tokens ++ us) := by
  obtain ⟨name, p, ts, hts⟩ := d.exists_identifier
  rw [hts]
  exact noArgument_identifier name p

theorem TestTree.not_followsTest (d : TestTree) : ¬ FollowsTest (d.tokens ++ us) := by
  obtain ⟨name, p, ts, hts⟩ := d.exists_identifier
  rw [hts]
  exact id

theorem TestTree.inner_noArgument (d : TestTree) (h : FollowsTest us) : NoArgument (d.inner ++ us) := by
  cases d with
  | plain phrase => exact h.noArgument
  | single phrase test => exact test.noArgument
  | list phrase opening tests closing => exact noArgument_openParen opening

mutual

theorem TestTree.unique : ∀ (d e : TestTree) {us vs : List Token}, d.tokens ++ us = e.tokens ++ vs →
    FollowsTest us → FollowsTest vs → d = e ∧ us = vs := by
  intro d e us vs h hus hvs
  rw [d.tokens_eq, e.tokens_eq, List.append_assoc, List.append_assoc] at h
  obtain ⟨hphrase, hinner⟩ := Phrase.unique (d.inner_noArgument hus) (e.inner_noArgument hvs) h
  -- The next token tells the three forms apart: what follows the test, an identifier, a parenthesis.
  match d, e with
  | .plain p, .plain q =>
      exact ⟨congrArg _ hphrase, hinner⟩
  | .single p d, .single q e =>
      obtain ⟨rfl, rfl⟩ := TestTree.unique d e hinner hus hvs
      exact ⟨congrArg (TestTree.single · d) hphrase, rfl⟩
  | .list p opening ds closing, .list q opening' es closing' =>
      simp only [TestTree.inner, List.cons_append, List.append_assoc, List.nil_append,
        List.cons.injEq, Token.mk.injEq, true_and] at hinner
      obtain ⟨rfl, hrest⟩ := hinner
      obtain ⟨rfl, rfl, rfl⟩ := TestsTree.unique ds es hrest
      exact ⟨congrArg (TestTree.list · opening ds closing) hphrase, rfl⟩
  | .plain p, .single q e =>
      rw [show us = e.tokens ++ vs from hinner] at hus
      exact absurd hus e.not_followsTest
  | .single p d, .plain q =>
      rw [show vs = d.tokens ++ us from hinner.symm] at hvs
      exact absurd hvs d.not_followsTest
  | .plain p, .list q opening es closing =>
      rw [show us = (TestTree.list q opening es closing).inner ++ vs from hinner] at hus
      exact hus.elim
  | .list p opening ds closing, .plain q =>
      rw [show vs = (TestTree.list p opening ds closing).inner ++ us from hinner.symm] at hvs
      exact hvs.elim
  | .single p d, .list q opening es closing =>
      obtain ⟨name, p, ts, hts⟩ := d.exists_identifier
      rw [TestTree.inner, hts] at hinner
      cases hinner
  | .list p opening ds closing, .single q e =>
      obtain ⟨name, p, ts, hts⟩ := e.exists_identifier
      rw [TestTree.inner, TestTree.inner, hts] at hinner
      cases hinner

theorem TestsTree.unique : ∀ (ds es : TestsTree) {p q : Pos} {us vs : List Token},
    ds.tokens ++ ⟨.closeParen, p⟩ :: us = es.tokens ++ ⟨.closeParen, q⟩ :: vs →
    ds = es ∧ p = q ∧ us = vs := by
  intro ds es p q us vs h
  match ds, es with
  | .last d, .last e =>
      obtain ⟨rfl, hrest⟩ := TestTree.unique d e h trivial trivial
      cases hrest
      exact ⟨rfl, rfl, rfl⟩
  | .cons d comma ds, .cons e comma' es =>
      rw [TestsTree.tokens, TestsTree.tokens, List.append_assoc, List.append_assoc] at h
      obtain ⟨rfl, hrest⟩ := TestTree.unique d e h trivial trivial
      rw [List.cons_append, List.cons_append, List.cons.injEq] at hrest
      obtain ⟨hcomma, hrest⟩ := hrest
      cases hcomma
      obtain ⟨rfl, rfl, rfl⟩ := TestsTree.unique ds es hrest
      exact ⟨rfl, rfl, rfl⟩
  | .last d, .cons e comma es =>
      rw [TestsTree.tokens, TestsTree.tokens, List.append_assoc] at h
      obtain ⟨-, hrest⟩ := TestTree.unique d e h trivial trivial
      cases hrest
  | .cons d comma ds, .last e =>
      rw [TestsTree.tokens, TestsTree.tokens, List.append_assoc] at h
      obtain ⟨-, hrest⟩ := TestTree.unique d e h trivial trivial
      cases hrest

end

/-! ## Commands -/

def FollowsHead : List Token → Prop
  | ⟨.semicolon, _⟩ :: _ | ⟨.openBrace, _⟩ :: _ => True
  | _ => False

theorem FollowsHead.followsTest (h : FollowsHead us) : FollowsTest us := by
  unfold FollowsHead at h
  split at h
  · trivial
  · trivial
  · exact h.elim

theorem HeadTree.unique {g h : HeadTree} (heq : g.tokens ++ us = h.tokens ++ vs)
    (hus : FollowsHead us) (hvs : FollowsHead vs) : g = h ∧ us = vs := by
  obtain ⟨p, d⟩ := g
  obtain ⟨q, e⟩ := h
  have hnext : ∀ (d : Option TestTree) {ts : List Token}, FollowsHead ts →
      NoArgument (d.toList.flatMap TestTree.tokens ++ ts) := by
    intro d ts hts
    cases d with
    | none => exact hts.followsTest.noArgument
    | some d =>
        rw [Option.toList_some, List.flatMap_singleton]
        exact d.noArgument
  rw [tokens, tokens, List.append_assoc, List.append_assoc] at heq
  obtain ⟨rfl, hrest⟩ := Phrase.unique (hnext d hus) (hnext e hvs) heq
  cases d with
  | none =>
      cases e with
      | none => exact ⟨rfl, hrest⟩
      | some e =>
          rw [Option.toList_some, List.flatMap_singleton] at hrest
          have hfollows := hus.followsTest
          rw [show us = e.tokens ++ vs from hrest] at hfollows
          exact absurd hfollows e.not_followsTest
  | some d =>
      cases e with
      | none =>
          rw [Option.toList_some, List.flatMap_singleton] at hrest
          have hfollows := hvs.followsTest
          rw [show vs = d.tokens ++ us from hrest.symm] at hfollows
          exact absurd hfollows d.not_followsTest
      | some e =>
          simp only [Option.toList_some, List.flatMap_singleton] at hrest
          obtain ⟨rfl, rfl⟩ := d.unique e hrest hus.followsTest hvs.followsTest
          exact ⟨rfl, rfl⟩

def NoCommand (ts : List Token) : Prop := ∀ name p us, ts ≠ ⟨.identifier name, p⟩ :: us

theorem noCommand_closeBrace (p : Pos) : NoCommand (⟨.closeBrace, p⟩ :: us) := by
  rintro name q us ⟨⟩

theorem CommandTree.exists_identifier (c : CommandTree r) :
    ∃ name p ts, c.tokens = ⟨.identifier name, p⟩ :: ts := by
  cases c with
  | simple head semicolon h => exact ⟨_, _, _, rfl⟩
  | control head opening commands closing h => exact ⟨_, _, _, by rw [tokens]; rfl⟩

theorem CommandTree.not_noCommand (c : CommandTree r) : ¬ NoCommand (c.tokens ++ us) := by
  obtain ⟨name, p, ts, hts⟩ := c.exists_identifier
  rw [hts]
  exact fun h => h name p _ rfl

mutual

theorem CommandTree.unique : ∀ (c d : CommandTree r) {us vs : List Token},
    c.tokens ++ us = d.tokens ++ vs → c = d ∧ us = vs := by
  intro c d us vs h
  match c, d with
  | .simple head p hc, .simple head' q hd =>
      rw [CommandTree.tokens, CommandTree.tokens, List.append_assoc, List.append_assoc] at h
      obtain ⟨rfl, hrest⟩ := HeadTree.unique h trivial trivial
      cases hrest
      exact ⟨rfl, rfl⟩
  | .control head opening cs closing hc, .control head' opening' ds closing' hd =>
      rw [CommandTree.tokens, CommandTree.tokens, List.append_assoc, List.append_assoc] at h
      obtain ⟨rfl, hrest⟩ := HeadTree.unique h trivial trivial
      simp only [List.cons_append, List.append_assoc, List.nil_append, List.cons.injEq,
        Token.mk.injEq, true_and] at hrest
      obtain ⟨rfl, hblock⟩ := hrest
      obtain ⟨rfl, hclose⟩ := CommandTree.unique_all cs ds hblock (noCommand_closeBrace closing)
        (noCommand_closeBrace closing')
      cases hclose
      exact ⟨rfl, rfl⟩
  | .simple head p hc, .control head' opening ds closing hd =>
      rw [CommandTree.tokens, CommandTree.tokens, List.append_assoc, List.append_assoc] at h
      obtain ⟨-, hrest⟩ := HeadTree.unique h trivial trivial
      cases hrest
  | .control head opening cs closing hc, .simple head' p hd =>
      rw [CommandTree.tokens, CommandTree.tokens, List.append_assoc, List.append_assoc] at h
      obtain ⟨-, hrest⟩ := HeadTree.unique h trivial trivial
      cases hrest

theorem CommandTree.unique_all : ∀ (cs ds : List (CommandTree r)) {us vs : List Token},
    CommandTree.tokensAll cs ++ us = CommandTree.tokensAll ds ++ vs → NoCommand us → NoCommand vs →
    cs = ds ∧ us = vs := by
  intro cs ds us vs h hus hvs
  match cs, ds with
  | [], [] => exact ⟨rfl, h⟩
  | [], d :: ds =>
      rw [CommandTree.tokensAll, CommandTree.tokensAll, List.append_assoc, List.nil_append] at h
      exact absurd (h ▸ hus) d.not_noCommand
  | c :: cs, [] =>
      rw [CommandTree.tokensAll, CommandTree.tokensAll, List.append_assoc, List.nil_append] at h
      exact absurd (h ▸ hvs) c.not_noCommand
  | c :: cs, d :: ds =>
      rw [CommandTree.tokensAll, CommandTree.tokensAll, List.append_assoc, List.append_assoc] at h
      obtain ⟨rfl, hrest⟩ := CommandTree.unique c d h
      obtain ⟨rfl, rfl⟩ := CommandTree.unique_all cs ds hrest hus hvs
      exact ⟨rfl, rfl⟩

end

theorem ScriptTree.unique {d e : ScriptTree r} (h : d.tokens = e.tokens) : d = e := by
  obtain ⟨cs, p⟩ := d
  obtain ⟨ds, q⟩ := e
  have hend : ∀ p : Option Pos, NoCommand (p.toList.map (⟨.endOfInput, ·⟩)) := by
    intro p name q us heq
    cases p <;> cases heq
  obtain ⟨rfl, hstop⟩ := CommandTree.unique_all cs ds h (hend p) (hend q)
  cases p <;> cases q <;> cases hstop <;> rfl

end MailFilter.Grammar
