import MailFilter.Proofs.Layout.Items
import MailFilter.Proofs.Script.Outline

/-!
# Steps of a reader

What one token does in each phase, and what the arguments and the tests of a command do together.  The
tokens of a printable tree are given by what they are and may stand anywhere, so what they are read as
is told up to places: by its outline.
-/

namespace MailFilter.Reading

open Layout

variable {α : Type} {o : ReadOptions} {s s' s'' : State} {ts us : List Token}

/-- Tokens lead from a state to another one. -/
def Reads (o : ReadOptions) (ts : List Token) (s s' : State) : Prop :=
  ts.foldlM (step o) s = .ok s'

theorem Reads.nil : Reads o [] s s := rfl

theorem Reads.append (h : Reads o ts s s') (h' : Reads o us s' s'') : Reads o (ts ++ us) s s'' := by
  rw [Reads, List.foldlM_append, h]
  exact h'

theorem Reads.cons {t : Token} (h : step o s t = .ok s') (h' : Reads o us s' s'') :
    Reads o (t :: us) s s'' := by
  rw [Reads, List.foldlM_cons, h]
  exact h'

theorem Reads.single {t : Token} (h : step o s t = .ok s') : Reads o [t] s s' :=
  Reads.cons h Reads.nil

/-- So many levels of blocks and tests are allowed. -/
def Permits (o : ReadOptions) (n : Nat) : Prop :=
  ∀ d p, 0 < d → d ≤ n → checkDepth o d p = .ok ()

theorem Permits.mono {n m : Nat} (h : Permits o n) (hm : m ≤ n) : Permits o m :=
  fun d p hpos hd => h d p hpos (Nat.le_trans hd hm)

theorem permits_of_le {n : Nat} {m : Int} (r : Registry) (h : n ≤ m) : Permits ⟨r, .int m⟩ n := by
  intro d p _ hd
  have hcompare : compare m (d : Int) ≠ .lt := by
    rw [ne_eq, Int.compare_eq_lt]
    omega
  rw [checkDepth]
  simp only [Value.compareInt?]
  split
  · next heq => cases heq
  · next heq => exact absurd (Option.some.inj (Option.some.inj heq)) hcompare
  · rfl

theorem Permits.le {n : Nat} {m : Int} {r : Registry} (h : Permits ⟨r, .int m⟩ n) (hm : 0 ≤ m) :
    n ≤ m := by
  by_contra hlt
  have hcheck := h n .nowhere (by omega) (Nat.le_refl n)
  have hcompare : (Value.int m).compareInt? n = some (some .lt) := by
    show some (some (compare m (n : Int))) = _
    rw [Int.compare_eq_lt.2 (by omega)]
  rw [checkDepth, hcompare] at hcheck
  cases hcheck

theorem heightOf_append (as bs : List (Argument α)) :
    Test.heightOf (as ++ bs) = max (Test.heightOf as) (Test.heightOf bs) := by
  induction as with
  | nil => simp [Test.heightOf]
  | cons a as ih =>
      cases a with
      | test t => rw [List.cons_append, Test.heightOf, Test.heightOf, ih, Nat.max_assoc]
      | _ => exact ih

theorem heightOf_plain {as : List (Argument α)} (h : ∀ a ∈ as, a.IsPlain) : Test.heightOf as = 0 := by
  induction as with
  | nil => rfl
  | cons a as ih =>
      obtain ⟨ha, hrest⟩ := List.forall_mem_cons.1 h
      cases a with
      | test t => exact ha.elim
      | _ => exact ih hrest

theorem heightAll_append (cs ds : List (Command α)) :
    Command.heightAll (cs ++ ds) = max (Command.heightAll cs) (Command.heightAll ds) := by
  induction cs with
  | nil => simp [Command.heightAll]
  | cons c cs ih => rw [List.cons_append, Command.heightAll, Command.heightAll, ih, Nat.max_assoc]

/-! ## Plain arguments -/

theorem argument?_of_plain {a : Argument α} (ha : a.IsPlain) (threshold : Option Nat) :
    ∃ item, argumentItems threshold a = [item] ∧ ∀ p, ∃ a',
      argument? ⟨item, p⟩ = some (.ok a') ∧ a'.outline = a.outline := by
  cases a with
  | string value form mark =>
      refine ⟨_, rfl, fun p => ?_⟩
      unfold Literal.item
      split
      · exact ⟨.string value .multiline p, rfl, rfl⟩
      · exact ⟨.string value .quoted p, rfl, rfl⟩
  | strings values mark => exact ⟨_, rfl, fun p => ⟨.strings values p, rfl, rfl⟩⟩
  | number value unit mark =>
      refine ⟨_, rfl, fun p => ⟨.number value.toNat unit p, ?_, ?_⟩⟩
      · simp only [argument?, number_toString ha]
      · rw [Argument.outline, Argument.outline, Int.toNat_of_nonneg ha.1]
  | tag name mark =>
      refine ⟨_, rfl, fun p => ⟨.tag name p, ?_, rfl⟩⟩
      simp only [argument?, ha.2.2]
  | test t => exact ha.elim
  | foreign shown => exact ha.elim

/-- A phase that takes arguments, given by the arguments so far. -/
def TakesArguments (o : ReadOptions) (P : List (Argument Pos) → Phase) : Prop :=
  ∀ (s : State) t a as, argument? t = some (.ok a) →
    step o { s with phase := P as } t = .ok { s with phase := P (as ++ [a]) }

theorem step_of_argument {t : Token} {a : Except ReadError (Argument Pos)}
    (h : argument? t = some a) : ∀ text, t.item ≠ .comment text := by
  rintro text heq
  rw [argument?, heq] at h
  cases h

theorem step_arguments {t : Token} {a : Except ReadError (Argument Pos)} (h : argument? t = some a)
    (s : State) (head : Head Pos) : step o { s with phase := .arguments head } t = (a >>= fun a =>
      .ok { s with phase := .arguments { head with arguments := head.arguments ++ [a] } }) := by
  unfold step
  split
  · next heq => exact absurd heq (step_of_argument h _)
  · simp only [h]
    rfl

theorem step_testArguments {t : Token} {a : Except ReadError (Argument Pos)} (h : argument? t = some a)
    (s : State) (head : Head Pos) (holders : List Holder) (test : OpenTest) :
    step o { s with phase := .testArguments head holders test } t = (a >>= fun a =>
      .ok { s with
        phase := .testArguments head holders { test with arguments := test.arguments ++ [a] } }) := by
  unfold step
  split
  · next heq => exact absurd heq (step_of_argument h _)
  · simp only [h]
    rfl

theorem takesArguments_command (head : Head Pos) :
    TakesArguments o fun as => .arguments { head with arguments := as } :=
  fun s _ _ _ h => step_arguments h s _

theorem takesArguments_test (head : Head Pos) (holders : List Holder) (test : OpenTest) :
    TakesArguments o fun as => .testArguments head holders { test with arguments := as } :=
  fun s _ _ _ h => step_testArguments h s head holders _

theorem TakesArguments.reads {P : List (Argument Pos) → Phase} (hP : TakesArguments o P)
    {as : List (Argument Pos)} (has : List.Forall₂ (fun t a => argument? t = some (.ok a)) ts as)
    (s : State) (found : List (Argument Pos)) :
    Reads o ts { s with phase := P found } { s with phase := P (found ++ as) } := by
  induction has generalizing found with
  | nil =>
      rw [List.append_nil]
      exact Reads.nil
  | @cons t a ts as hargument _ ih =>
      have hrest := ih (found ++ [a])
      rw [List.append_assoc, List.singleton_append] at hrest
      exact Reads.cons (hP s t a found hargument) hrest

theorem arguments_of_plain {threshold : Option Nat} {as : List (Argument α)}
    (has : ∀ a ∈ as, a.IsPlain) (hts : ts.map (·.item) = (argumentsItems threshold as).flatten) :
    ∃ as', List.Forall₂ (fun t a => argument? t = some (.ok a)) ts as' ∧
      Argument.outlineAll as' = Argument.outlineAll as := by
  induction as generalizing ts with
  | nil =>
      rw [argumentsItems, List.flatten_nil, List.map_eq_nil_iff] at hts
      subst hts
      exact ⟨[], .nil, rfl⟩
  | cons a as ih =>
      obtain ⟨ha, has⟩ := List.forall_mem_cons.1 has
      obtain ⟨item, hitem, hread⟩ := argument?_of_plain ha threshold
      rw [argumentsItems, hitem, List.flatten_cons, List.singleton_append, List.map_eq_cons_iff] at hts
      obtain ⟨⟨item', p⟩, us, rfl, rfl, hus⟩ := hts
      obtain ⟨a', hargument, ha'⟩ := hread p
      obtain ⟨as', hall, has'⟩ := ih has hus
      exact ⟨a' :: as', .cons hargument hall,
        by rw [Argument.outlineAll, Argument.outlineAll, ha', has']⟩

theorem reads_plain {P : List (Argument Pos) → Phase} (hP : TakesArguments o P)
    {threshold : Option Nat} {as : List (Argument α)} (has : ∀ a ∈ as, a.IsPlain) (s : State)
    (hts : ts.map (·.item) = (argumentsItems threshold as).flatten) :
    ∃ as', Reads o ts { s with phase := P [] } { s with phase := P as' } ∧
      Argument.outlineAll as' = Argument.outlineAll as := by
  obtain ⟨as', hall, has'⟩ := arguments_of_plain has hts
  exact ⟨as', hP.reads hall s [], has'⟩

/-! ## Tests -/

/-- A phase in which a test may start, with the holders of that test. -/
inductive Opens (head : Head Pos) : Phase → List Holder → Prop
  | command : Opens head (.arguments head) []
  | single (holders : List Holder) (test : OpenTest) :
    Opens head (.testArguments head holders test) (.single test :: holders)
  | list (holders : List Holder) (list : OpenList) :
    Opens head (.testName head holders list) (.list list :: holders)

theorem step_open {head : Head Pos} {P : Phase} {holders : List Holder} (hopen : Opens head P holders)
    (name : String) (hdepth : Permits o (testDepth s.frames holders)) (p : Pos) :
    step o { s with phase := P } ⟨.identifier name, p⟩ =
      .ok { s with phase := .testArguments head holders ⟨Keyword.normalName name, [], p⟩ } := by
  have hopened : openTest o { s with phase := P } head holders name p =
      .ok { s with phase := .testArguments head holders ⟨Keyword.normalName name, [], p⟩ } := by
    rw [openTest, hdepth _ p (by unfold testDepth; omega) (Nat.le_refl _)]
    rfl
  cases hopen <;> exact hopened

theorem step_identifier {o : ReadOptions} {head : Head Pos} {holders : List Holder} {name : String}
    (hopen : Opens head s.phase holders) (ht : t.item = .identifier name) :
    step o s t = openTest o s head holders name t.pos := by
  obtain ⟨pending, frames, commands, phase⟩ := s
  obtain ⟨item, p⟩ := t
  cases ht
  cases hopen <;> rfl

/-- What a phase is once the tests that are being read are closed. -/
def settle : Phase → Phase
  | .testArguments head holders test => closeTest head (test.close []) holders
  | phase => phase

/-- A phase in which a sign may close what is being read. -/
def IsClosing : Phase → Prop
  | .testArguments .. | .testEnd .. | .ended _ => True
  | _ => False

theorem closeTest_cases (head : Head Pos) (test : Test Pos) (holders : List Holder) :
    (∃ head', closeTest head test holders = .ended head') ∨
      ∃ outer list, closeTest head test holders = .testEnd head outer list := by
  fun_induction closeTest head test holders with
  | case1 => exact .inl ⟨_, rfl⟩
  | case2 test parent holders ih => exact ih
  | case3 => exact .inr ⟨_, _, rfl⟩

theorem isClosing_closeTest (head : Head Pos) (test : Test Pos) (holders : List Holder) :
    IsClosing (closeTest head test holders) ∧
      settle (closeTest head test holders) = closeTest head test holders := by
  rcases closeTest_cases head test holders with ⟨head', h⟩ | ⟨outer, list, h⟩
  · rw [h]
    exact ⟨trivial, rfl⟩
  · rw [h]
    exact ⟨trivial, rfl⟩

theorem step_close {P : Phase} (hP : IsClosing P) {item : Item}
    (hitem : item = .comma ∨ item = .closeParen ∨ item = .semicolon ∨ item = .openBrace) (p : Pos) :
    step o { s with phase := P } ⟨item, p⟩ =
      stepClosed o { s with phase := P } ⟨item, p⟩ (settle P) := by
  cases P with
  | testArguments | testEnd | ended => rcases hitem with rfl | rfl | rfl | rfl <;> rfl
  | statement | arguments | testName => exact hP.elim

theorem not_endOfInput_of_step {t : Token} (h : step o s t = .ok s') : t.item ≠ .endOfInput := by
  obtain ⟨item, p⟩ := t
  obtain ⟨pending, frames, commands, phase⟩ := s
  rintro rfl
  cases phase with
  | testArguments head holders test =>
      have hclosed : stepClosed o ⟨pending, frames, commands, .testArguments head holders test⟩
          ⟨.endOfInput, p⟩ (closeTest head (test.close []) holders) = .ok s' := h
      rcases closeTest_cases head (test.close []) holders with ⟨head', heq⟩ | ⟨outer, list, heq⟩
      · rw [heq] at hclosed
        cases hclosed
      · rw [heq] at hclosed
        cases hclosed
  | _ => cases h

/-- What the tokens of a test come to: a phase that is settled once the test is closed. -/
def ReadsTest (o : ReadOptions) (ts : List Token) (s : State) (P : Phase) (head : Head Pos)
    (holders : List Holder) (t : Test Pos) : Prop :=
  ∃ P', Reads o ts { s with phase := P } { s with phase := P' } ∧ IsClosing P' ∧
    settle P' = closeTest head t holders

/-- What the tokens of a list of tests come to, up to the end of the last one. -/
def ReadsTests (o : ReadOptions) (ts : List Token) (s : State) (head : Head Pos)
    (holders : List Holder) (list : OpenList) (tests : List (Test Pos)) : Prop :=
  ∃ P', Reads o ts { s with phase := .testName head holders list } { s with phase := P' } ∧
    IsClosing P' ∧ settle P' = .testEnd head holders { list with tests := list.tests ++ tests }

section Tests

variable {P Q : Phase} {head : Head Pos} {holders : List Holder} {test : OpenTest} {list : OpenList}
  {t : Test Pos} {tests : List (Test Pos)}

theorem ReadsTest.after (h : Reads o ts { s with phase := P } { s with phase := Q })
    (htest : ReadsTest o us s Q head holders t) : ReadsTest o (ts ++ us) s P head holders t := by
  obtain ⟨P', hreads, hclosed⟩ := htest
  exact ⟨P', h.append hreads, hclosed⟩

theorem readsTest_plain :
    ReadsTest o [] s (.testArguments head holders test) head holders (test.close []) :=
  ⟨_, Reads.nil, trivial, rfl⟩

theorem readsTest_parens {p q : Pos} (h : ReadsTests o ts s head holders ⟨test, [], p⟩ tests) :
    ReadsTest o (⟨.openParen, p⟩ :: ts ++ [⟨.closeParen, q⟩]) s (.testArguments head holders test)
      head holders (test.close tests) := by
  obtain ⟨P', hreads, hclosing, hsettle⟩ := h
  refine ⟨closeTest head (test.close tests) holders, ?_, ?_, ?_⟩
  · have hopen : step o { s with phase := .testArguments head holders test } ⟨.openParen, p⟩ =
        .ok { s with phase := .testName head holders ⟨test, [], p⟩ } := rfl
    refine Reads.cons hopen ?_
    refine hreads.append (Reads.single ?_)
    rw [step_close hclosing (.inr (.inl rfl)), hsettle]
    rfl
  · exact (isClosing_closeTest _ _ _).1
  · exact (isClosing_closeTest _ _ _).2

theorem readsTest_alone
    (h : ReadsTest o ts s (.testArguments head holders test) head (.single test :: holders) t) :
    ReadsTest o ts s (.testArguments head holders test) head holders (test.close [t]) := by
  obtain ⟨P', hreads, hclosing, hsettle⟩ := h
  exact ⟨P', hreads, hclosing, hsettle⟩

theorem readsTests_last
    (h : ReadsTest o ts s (.testName head holders list) head (.list list :: holders) t) :
    ReadsTests o ts s head holders list [t] := by
  obtain ⟨P', hreads, hclosing, hsettle⟩ := h
  exact ⟨P', hreads, hclosing, hsettle⟩

theorem readsTests_cons {p : Pos}
    (h : ReadsTest o ts s (.testName head holders list) head (.list list :: holders) t)
    (hrest : ReadsTests o us s head holders { list with tests := list.tests ++ [t] } tests) :
    ReadsTests o (ts ++ ⟨.comma, p⟩ :: us) s head holders list (t :: tests) := by
  obtain ⟨P', hreads, hclosing, hsettle⟩ := h
  obtain ⟨Q', hreads', hclosing', hsettle'⟩ := hrest
  refine ⟨Q', hreads.append (Reads.cons ?_ hreads'), hclosing', ?_⟩
  · rw [step_close hclosing (.inl rfl), hsettle]
    rfl
  · rw [hsettle', List.append_assoc, List.singleton_append]

end Tests

theorem outline_close {test : OpenTest} {tests : List (Test Pos)} {arguments inner : List (Argument α)}
    (mark : α) (harguments : Argument.outlineAll test.arguments = Argument.outlineAll arguments)
    (hinner : Argument.outlineAll (tests.map .test) = Argument.outlineAll inner) :
    (test.close tests).outline = (Test.mk test.name arguments inner mark).outline := by
  rw [OpenTest.close, Test.outline, Test.outline, harguments, hinner]

theorem split_testItems {threshold : Option Nat} {name : String} {as inner : List (Argument α)}
    {mark : α} (h : ts.map (·.item) = testItems threshold (.mk name as inner mark)) :
    ∃ p vs ws, ts = ⟨.identifier name, p⟩ :: vs ++ ws ∧
      vs.map (·.item) = (argumentsItems threshold as).flatten ∧
      ws.map (·.item) = innerItems name (argumentsItems threshold inner) := by
  rw [testItems, List.cons_append, List.map_eq_cons_iff] at h
  obtain ⟨⟨_, p⟩, us, rfl, rfl, hus⟩ := h
  obtain ⟨vs, ws, rfl, hvs, hws⟩ := List.map_eq_append_iff.1 hus
  exact ⟨p, vs, ws, rfl, hvs, hws⟩

theorem single_of_map {item : Item} (h : ts.map (·.item) = [item]) : ∃ p, ts = [⟨item, p⟩] := by
  obtain ⟨⟨_, p⟩, rest, rfl, rfl, hrest⟩ := List.map_eq_cons_iff.1 h
  rw [List.map_eq_nil_iff] at hrest
  exact ⟨p, by rw [hrest]⟩

theorem split_parens {items : List Item}
    (h : ts.map (·.item) = .openParen :: items ++ [.closeParen]) :
    ∃ p us q, ts = ⟨.openParen, p⟩ :: us ++ [⟨.closeParen, q⟩] ∧ us.map (·.item) = items := by
  rw [List.cons_append, List.map_eq_cons_iff] at h
  obtain ⟨⟨_, p⟩, vs, rfl, rfl, hvs⟩ := h
  obtain ⟨us, ws, rfl, hus, hws⟩ := List.map_eq_append_iff.1 hvs
  obtain ⟨q, rfl⟩ := single_of_map hws
  exact ⟨p, us, q, rfl, hus⟩

mutual

theorem reads_test {threshold : Option Nat} : ∀ (t : Test α), t.Printable →
    ∀ {P : Phase} {head : Head Pos} {holders : List Holder} {s : State} {ts : List Token},
      Opens head P holders → Permits o (s.frames.length + holders.length + t.height) →
      ts.map (·.item) = testItems threshold t →
      ∃ t', ReadsTest o ts s P head holders t' ∧ t'.outline = t.outline
  | .mk name as inner mark, ht, P, head, holders, s, ts, hopen, hdepth, hts => by
      obtain ⟨hname, has, hinner⟩ := ht
      rw [Test.height] at hdepth
      obtain ⟨p, vs, ws, rfl, hvs, hws⟩ := split_testItems hts
      have hstart := step_open (s := s) hopen name (hdepth.mono (by unfold testDepth; omega)) p
      rw [hname.normalName] at hstart
      obtain ⟨as', hreads, has'⟩ :=
        reads_plain (takesArguments_test (o := o) head holders ⟨name, [], p⟩) has s hvs
      have hread := Reads.cons hstart hreads
      suffices hrest : ∃ ts', ReadsTest o ws s (.testArguments head holders ⟨name, as', p⟩) head holders
          (OpenTest.close ⟨name, as', p⟩ ts') ∧
          Argument.outlineAll (ts'.map .test) = Argument.outlineAll inner by
        obtain ⟨ts', htest, hinner'⟩ := hrest
        exact ⟨_, htest.after hread, outline_close mark has' hinner'⟩
      match inner with
      | [] =>
          rw [argumentsItems, innerItems, List.map_eq_nil_iff] at hws
          subst hws
          exact ⟨[], readsTest_plain, rfl⟩
      | .test t :: inner =>
          rw [Test.heightOf] at hdepth
          by_cases halone : inner = [] ∧ Keyword.ofName? name = some .notTest
          · obtain ⟨rfl, hnot⟩ := halone
            rw [argumentsItems, argumentsItems, innerItems, if_pos (by simpa using hnot)] at hws
            have hopened : Opens head (.testArguments head holders ⟨name, as', p⟩) _ := .single holders _
            obtain ⟨t', htest, ht'⟩ := reads_test t hinner.1 (s := s) hopened
              (hdepth.mono (by rw [List.length_cons]; omega)) hws
            exact ⟨[t'], readsTest_alone htest, by simp [Argument.outlineAll, Argument.outline, ht']⟩
          · have hparens : innerItems name (argumentsItems threshold (.test t :: inner)) =
                .openParen :: [.comma].intercalate (argumentsItems threshold (.test t :: inner)) ++
                  [.closeParen] := by
              cases inner with
              | nil =>
                  rw [argumentsItems, argumentsItems, innerItems, if_neg (by simpa using halone)]
                  simp
              | cons a inner =>
                  rw [argumentsItems, argumentsItems, innerItems_many]
            rw [hparens] at hws
            obtain ⟨q, us, r, rfl, hus⟩ := split_parens hws
            obtain ⟨ts', htests, hts'⟩ : ∃ ts',
                ReadsTests o us s head holders ⟨⟨name, as', p⟩, [], q⟩ ts' ∧ _ :=
              reads_tests (.test t :: inner) hinner (by simp)
                (hdepth.mono (by rw [Test.heightOf]; omega)) hus
            exact ⟨ts', readsTest_parens htests, hts'⟩

theorem reads_tests {threshold : Option Nat} : ∀ (as : List (Argument α)),
    Argument.PrintableTests as → as ≠ [] →
    ∀ {head : Head Pos} {holders : List Holder} {list : OpenList} {s : State} {ts : List Token},
      Permits o (s.frames.length + holders.length + 1 + Test.heightOf as) →
      ts.map (·.item) = [Item.comma].intercalate (argumentsItems threshold as) →
      ∃ ts', ReadsTests o ts s head holders list ts' ∧
        Argument.outlineAll (ts'.map .test) = Argument.outlineAll as
  | [], _, hne, _, _, _, _, _, _, _ => absurd rfl hne
  | .test t :: as, h, _, head, holders, list, s, ts, hdepth, hts => by
      rw [Test.heightOf] at hdepth
      have hfirst : ∀ us, us.map (·.item) = testItems threshold t →
          ∃ t', ReadsTest o us s (.testName head holders list) head (.list list :: holders) t' ∧
            t'.outline = t.outline :=
        fun us hus => reads_test t h.1 (.list holders list)
          (hdepth.mono (by rw [List.length_cons]; omega)) hus
      by_cases hne : as = []
      · subst hne
        rw [argumentsItems, argumentsItems, List.intercalate_singleton] at hts
        obtain ⟨t', htest, ht'⟩ := hfirst ts hts
        exact ⟨[t'], readsTests_last htest, by simp [Argument.outlineAll, Argument.outline, ht']⟩
      · obtain ⟨us, p, vs, rfl, hus, hvs⟩ : ∃ us p vs, ts = us ++ ⟨.comma, p⟩ :: vs ∧
            us.map (·.item) = testItems threshold t ∧
            vs.map (·.item) = [Item.comma].intercalate (argumentsItems threshold as) := by
          cases as with
          | nil => exact absurd rfl hne
          | cons a as =>
              rw [argumentsItems, argumentsItems, List.intercalate_cons_cons, List.append_assoc,
                List.singleton_append] at hts
              obtain ⟨us, ws, rfl, hus, hws⟩ := List.map_eq_append_iff.1 hts
              obtain ⟨⟨_, p⟩, vs, rfl, rfl, hvs⟩ := List.map_eq_cons_iff.1 hws
              exact ⟨us, p, vs, rfl, hus, hvs⟩
        obtain ⟨t', htest, ht'⟩ := hfirst us hus
        obtain ⟨ts', htests, hts'⟩ : ∃ ts',
            ReadsTests o vs s head holders { list with tests := list.tests ++ [t'] } ts' ∧ _ :=
          reads_tests as h.2 hne (hdepth.mono (by omega)) hvs
        refine ⟨t' :: ts', readsTests_cons htest htests, ?_⟩
        rw [List.map_cons, Argument.outlineAll, Argument.outlineAll, Argument.outline, Argument.outline,
          ht', hts']

end

end MailFilter.Reading
