import MailFilter.Proofs.Lexeme.Readers
import MailFilter.Proofs.Lexeme.Words
import MailFilter.Proofs.Result

/-!
# Where faults are told

A text that does not split breaks off at a fault, and the fault is told of a place in that text: where
the literal or comment stands that does not close, or what stands there in place of something else.
-/

namespace MailFilter.Lexeme

/-- What a fault is told of stands at the front of a text.  Every character opens a lexeme. -/
def Fault.Opens : Fault → List Char → Prop
  | .unclosedComment, cs => ∃ rest, cs = '/' :: '*' :: rest ∧ bracketTail rest = none
  | .unclosedString, cs => ∃ rest, cs = '"' :: rest ∧ quotedTail rest = none
  | .unclosedMultiline, cs => ∃ key rest header, cs = key ++ rest ∧ isTextKey key = true ∧
      multilineHeader rest = .ok header ∧ multilineLines header.rest = none
  | .noLineBreak, cs => ∃ key rest header, cs = key ++ rest ∧ isTextKey key = true ∧
      multilineHeader rest = .error header
  | .unclosedList, cs => ∃ rest b, cs = '[' :: rest ∧ listTail .opened rest = .error b ∧
      b.fault = .unclosedList
  | .strayBracket, cs => cs.head? = some ']'
  | .noString, cs => cs ≠ [] ∧ cs.head? ≠ some '"' ∧ textKey? cs = none
  | .noComma found, cs => cs.head? = some found ∧ found ≠ ','
  | .noWord _, _ => False

/-! ## Single readers -/

theorem quotedString_error {cs : List Char} {b : Broken} (h : quotedString cs = .error b) :
    b = ⟨.unclosedString, none, '"' :: cs⟩ ∧ quotedTail cs = none := by
  unfold quotedString at h
  split at h <;> cases h
  exact ⟨rfl, ‹_›⟩

theorem bracketComment_error {cs : List Char} {b : Broken} (h : bracketComment cs = .error b) :
    b = ⟨.unclosedComment, none, '/' :: '*' :: cs⟩ ∧ bracketTail cs = none := by
  unfold bracketComment at h
  split at h <;> cases h
  exact ⟨rfl, ‹_›⟩

theorem multilineString_error {key cs : List Char} {b : Broken} (h : multilineString key cs = .error b)
    (hkey : isTextKey key = true) : b.lead = none ∧ b.fault.Opens (key ++ cs) := by
  unfold multilineString at h
  split at h
  · next header hheader =>
      cases h
      exact ⟨rfl, key, cs, header, rfl, hkey, hheader⟩
  · next header hheader =>
      split at h <;> cases h
      exact ⟨rfl, key, cs, header, rfl, hkey, hheader, ‹_›⟩

theorem bracketTail_of_filler {cs rest : List Char} (h : (filler cs).2 = '/' :: '*' :: rest) :
    bracketTail rest = none := by
  fun_induction filler cs with
  | case1 => cases h
  | case2 c cs _ text rest' hf ih =>
      rw [hf] at ih
      exact ih h
  | case3 c cs _ _ text rest' hf ih =>
      rw [hf] at ih
      exact ih h
  | case4 c cs _ _ _ t _ text rest' hf ih =>
      rw [hf] at ih
      exact ih h
  | case5 c cs _ _ _ hnone =>
      cases h
      exact hnone
  | case6 c cs _ _ hopen =>
      cases h
      exact absurd rfl hopen

theorem listItem_error {cs : List Char} {b : Broken} (hne : cs ≠ []) (h : listItem cs = .error b) :
    b.lead = some [] ∧ b.fault.Opens cs := by
  have hinside : ∀ {b' : Broken}, b'.lead = none → b'.inside.lead = some [] := fun hnone => by
    rw [Broken.inside, hnone]
    rfl
  by_cases hquote : cs.head? = some '"'
  · obtain ⟨cs, rfl⟩ := List.head?_eq_some_iff.mp hquote
    rw [listItem_quote] at h
    obtain ⟨b', hb', rfl⟩ := mapError_eq_error.mp h
    obtain ⟨rfl, hnone⟩ := quotedString_error hb'
    exact ⟨rfl, cs, rfl, hnone⟩
  · cases hkey : textKey? cs with
    | none =>
        rw [listItem_none hquote hkey] at h
        cases h
        exact ⟨rfl, hne, hquote, hkey⟩
    | some found =>
        obtain ⟨key, rest⟩ := found
        rw [listItem_key hkey] at h
        obtain ⟨b', hb', rfl⟩ := mapError_eq_error.mp h
        obtain ⟨rfl, hword, -⟩ := textKey?_eq_some.mp hkey
        obtain ⟨hlead, hopens⟩ := multilineString_error hb' hword
        exact ⟨hinside hlead, hopens⟩

/-! ## Lists -/

/-- The fault is told of the list that is read, or of what stands in this text behind some of it. -/
def Broken.ToldIn (b : Broken) (cs : List Char) : Prop :=
  b.fault = .unclosedList ∧ b.lead = none ∨
    ∃ lead rest, b.lead = some lead ∧ cs = lead ++ rest ∧ b.fault.Opens rest

theorem Broken.ToldIn.after {b : Broken} {cs : List Char} (h : b.ToldIn cs) (text : List Char) :
    (b.after text).ToldIn (text ++ cs) := by
  rcases h with ⟨hfault, hlead⟩ | ⟨lead, rest, hlead, rfl, hopens⟩
  · exact .inl ⟨hfault, by rw [Broken.after, hlead]; rfl⟩
  · refine .inr ⟨text ++ lead, rest, by rw [Broken.after, hlead]; rfl, ?_, hopens⟩
    rw [List.append_assoc]

theorem listTail_error {state : ListState} {cs : List Char} {b : Broken}
    (h : listTail state cs = .error b) : b.ToldIn cs := by
  have hcs := filler_append cs
  fun_induction listTail state cs generalizing b <;> cases h
  case case1 => exact .inl ⟨rfl, rfl⟩
  case case2 state cs space c rest hr hopen =>
    obtain ⟨rfl, hstar⟩ : c = '/' ∧ rest.head? = some '*' := by simpa using hopen
    obtain ⟨rest, rfl⟩ := List.head?_eq_some_iff.mp hstar
    rw [hr] at hcs
    exact .inr ⟨space, _, rfl, hcs.symm, rest, rfl, bracketTail_of_filler hr⟩
  case case5 state cs space c rest hr _ _ _ _ b hb ih =>
    rw [hr, ← List.singleton_append, ← List.append_assoc] at hcs
    rw [← hcs]
    exact (ih hb (filler_append _)).after _
  case case6 state cs space c rest hr _ _ _ hcomma =>
    rw [hr] at hcs
    exact .inr ⟨space, _, rfl, hcs.symm, rfl, by simpa using hcomma⟩
  case case7 state cs space c rest hr _ _ _ b hb =>
    obtain ⟨hlead, hopens⟩ := listItem_error (List.cons_ne_nil c rest) hb
    have htold : b.ToldIn (c :: rest) := .inr ⟨[], _, hlead, rfl, hopens⟩
    rw [hr] at hcs
    rw [← hcs]
    exact htold.after space
  case case9 state cs space c rest hr _ _ _ item hi b hb ih =>
    rw [hr, ← listItem_append hi, ← List.append_assoc] at hcs
    rw [← hcs]
    exact (ih hb (filler_append _)).after _

/-! ## All lexemes -/

theorem wordTail_ne_nil {c : Char} (cs : List Char) (hblank : Text.isBlank c = false) (hhash : c ≠ '#')
    (hcomment : ¬ (c == '/' && cs.head? == some '*') = true) (hquote : c ≠ '"') (hopen : c ≠ '[')
    (hclose : c ≠ ']') (hsign : sign? c = none) : (wordTail (c :: cs)).1 ≠ [] := by
  have hdelim := isDelimiter_eq_false hhash hquote hopen hclose hsign
  rw [wordTail, if_neg (by simp_all)]
  exact List.cons_ne_nil _ _

/-- Where a text breaks off, what the fault is told of stands at the place that is told. -/
theorem next_error {c : Char} {cs : List Char} {b : Broken} (h : next c cs = .error b) :
    ∃ rest, c :: cs = b.lead.getD [] ++ rest ∧ b.fault.Opens rest := by
  unfold next at h
  split at h
  · cases h
  next hblank =>
  split at h
  · cases h
  next hhash =>
  split at h
  · next hopen =>
      obtain ⟨rfl, hnone⟩ := bracketComment_error (map_eq_error.mp h)
      obtain ⟨rfl, hstar⟩ : c = '/' ∧ cs.head? = some '*' := by simpa using hopen
      obtain ⟨cs, rfl⟩ := List.head?_eq_some_iff.mp hstar
      exact ⟨_, rfl, cs, rfl, hnone⟩
  next hcomment =>
  split at h
  · next hquote =>
      obtain ⟨rfl, hnone⟩ := quotedString_error (map_eq_error.mp h)
      obtain rfl : c = '"' := by simpa using hquote
      exact ⟨_, rfl, cs, rfl, hnone⟩
  next hquote =>
  split at h
  · next hlist =>
      obtain rfl : c = '[' := by simpa using hlist
      have h := map_eq_error.mp h
      unfold stringList at h
      split at h <;> cases h
      next b hb =>
      rcases listTail_error hb with ⟨hfault, hlead⟩ | ⟨lead, rest, hlead, rfl, hopens⟩
      · refine ⟨'[' :: cs, by rw [Broken.after, hlead]; rfl, ?_⟩
        rw [Broken.after, hfault]
        exact ⟨cs, b, rfl, hb, hfault⟩
      · exact ⟨rest, by rw [Broken.after, hlead]; rfl, hopens⟩
  next hopen =>
  split at h
  · next hclose =>
      cases h
      exact ⟨_, rfl, congrArg some (by simpa using hclose)⟩
  next hclose =>
  split at h
  · cases h
  next hsign =>
    have hne := wordTail_ne_nil cs (by simpa using hblank) (by simpa using hhash) hcomment
      (by simpa using hquote) (by simpa using hopen) (by simpa using hclose) hsign
    have happend := wordTail_append (c :: cs)
    rw [← Prod.eta (wordTail (c :: cs)), wordAt_of_ne_nil hne] at h
    unfold wordLexeme at h
    split at h
    · next hkey =>
        obtain ⟨hlead, hopens⟩ := multilineString_error (map_eq_error.mp h) hkey
        rw [happend] at hopens
        exact ⟨_, by rw [hlead]; rfl, hopens⟩
    · cases h

theorem next_ne_noWord {c : Char} {cs : List Char} {b : Broken} (h : next c cs = .error b)
    (found : Char) : b.fault ≠ .noWord found := by
  obtain ⟨rest, -, hopens⟩ := next_error h
  intro hfault
  rw [hfault] at hopens
  exact hopens

end MailFilter.Lexeme
