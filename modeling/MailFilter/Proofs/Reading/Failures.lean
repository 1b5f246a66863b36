import MailFilter.Proofs.Reading.Depth

/-!
# How reading fails

A text that is no script has a fault at a place, or nests deeper than the limit.  One more way is left: a
number that has too many digits, where arguments are being read.  It is refused as a number, and not as a
fault of the script.
-/

namespace MailFilter.Reading

variable {r : Registry} {m n : Nat} {o : ReadOptions} {s s' : State} {t : Token} {e : ReadError}

/-- An error that tells what is wrong with a script: a fault at a place, or a depth beyond the limit. -/
inductive Documented (m : Nat) : ReadError → Prop
  | invalid (error : SyntaxError) : Documented m (.invalid error)
  | tooDeep (p : Pos) : Documented m (tooDeep m p)

/-- The arguments of a command or of a test are being read. -/
def Phase.InArguments : Phase → Prop
  | .arguments _ | .testArguments .. => True
  | _ => False

/-- A number that is read at a state, and fails as a number. -/
def FailsAt (s : State) (t : Token) (e : ReadError) : Prop :=
  s.phase.InArguments ∧ ∃ text fault, t.item = .number text ∧ number text = .error fault ∧
    e = .number fault

/-! ## Steps -/

theorem documented_of_check {d : Nat} {p : Pos}
    (h : (checkDepth ⟨r, .int m⟩ d p >>= fun _ => .ok s') = .error e) : Documented m e := by
  have hcheck := bind_ok_eq_error.1 h
  rw [checkDepth_int] at hcheck
  split at hcheck
  · cases hcheck
  · cases hcheck
    exact .tooDeep p

theorem documented_stepStatement (h : stepStatement s t = .error e) : Documented m e := by
  unfold stepStatement at h
  split at h
  · cases h
  · split at h <;> cases h
    exact .invalid _
  · cases h
    exact .invalid _

theorem documented_stepEnd {head : Head Pos} (h : stepEnd ⟨r, .int m⟩ s head t = .error e) :
    Documented m e := by
  unfold stepEnd at h
  split at h
  · split at h <;> cases h
    exact .invalid _
  · split at h
    · cases h
      exact .invalid _
    · exact documented_of_check h
  · cases h
    exact .invalid _

theorem documented_stepClosed {phase : Phase} (h : stepClosed ⟨r, .int m⟩ s t phase = .error e) :
    Documented m e := by
  cases phase with
  | testEnd head holders list =>
      simp only [stepClosed, stepTestEnd] at h
      split at h <;> cases h
      exact .invalid _
  | ended head => exact documented_stepEnd h
  | statement | arguments | testArguments | testName => cases h

theorem fault_of_argument? (h : argument? t = some (.error e)) :
    ∃ text fault, t.item = .number text ∧ number text = .error fault ∧ e = .number fault := by
  obtain ⟨item, p⟩ := t
  cases item with
  | number text =>
      simp only [argument?, Option.some.injEq] at h
      split at h
      · cases h
      · next fault hfault =>
          cases h
          exact ⟨text, fault, rfl, hfault, rfl⟩
  | _ => cases h

theorem failure_argument {a : Except ReadError (Argument Pos)} {f : Argument Pos → State}
    (hphase : s.phase.InArguments) (ha : argument? t = some a)
    (h : (a >>= fun a => .ok (f a)) = .error e) : FailsAt s t e := by
  cases a with
  | ok a => cases h
  | error e' =>
      cases h
      exact ⟨hphase, fault_of_argument? ha⟩

/-- A token fails with what tells the fault of the script, or as a number. -/
theorem failure_step (h : step ⟨r, .int m⟩ s t = .error e) : Documented m e ∨ FailsAt s t e := by
  unfold step at h
  split at h
  · cases h
  split at h
  · exact .inl (documented_stepStatement h)
  · next head hat =>
      split at h
      · next a ha => exact .inr (failure_argument (hat ▸ trivial) ha h)
      left
      split at h
      · exact documented_of_check h
      · cases h
        exact .invalid _
      · exact documented_stepEnd h
  · next head holders test hat =>
      split at h
      · next a ha => exact .inr (failure_argument (hat ▸ trivial) ha h)
      left
      split at h
      · exact documented_of_check h
      · cases h
      · exact documented_stepClosed h
  · left
    split at h
    · exact documented_of_check h
    · split at h <;> cases h <;> exact .invalid _
    · cases h
      exact .invalid _
  · exact .inl (documented_stepClosed h)

theorem step_failsAt (h : FailsAt s t e) : step o s t = .error e := by
  obtain ⟨hphase, text, fault, hitem, hnumber, rfl⟩ := h
  have hargument : argument? t = some (.error (.number fault)) := by
    rw [argument?, hitem]
    simp only [hnumber]
  obtain ⟨pending, frames, commands, phase⟩ := s
  cases phase with
  | arguments head => exact step_arguments hargument ⟨pending, frames, commands, .statement⟩ head
  | testArguments head holders test =>
      exact step_testArguments hargument ⟨pending, frames, commands, .statement⟩ head holders test
  | statement | testName | testEnd | ended => exact hphase.elim

/-! ## Runs -/

theorem documented_finish {stop : Option Pos} (h : finish s stop = .error e) : Documented m e := by
  obtain ⟨pending, frames, commands, phase⟩ := s
  cases phase with
  | statement =>
      cases frames with
      | nil => cases h
      | cons f frames =>
          cases h
          exact .invalid _
  | testArguments head holders test =>
      simp only [finish] at h
      rcases closeTest_cases head (test.close []) holders with ⟨head', hclose⟩ | ⟨_, _, hclose⟩
      all_goals
        rw [hclose] at h
        cases h
        exact .invalid _
  | arguments | testName | testEnd | ended =>
      cases h
      exact .invalid _

/-- Tokens fail as a number after those before it have been read. -/
def FailsIn (o : ReadOptions) (s : State) (ts : List Token) (e : ReadError) : Prop :=
  ∃ before t after s', ts = before ++ t :: after ∧ Reads o before s s' ∧ FailsAt s' t e

theorem failure_run {ts : List Token} (h : run ⟨r, .int m⟩ s ts = .error e) :
    Documented m e ∨ FailsIn ⟨r, .int m⟩ s ts e := by
  induction ts generalizing s with
  | nil => exact .inl (documented_finish h)
  | cons t ts ih =>
      rw [run] at h
      split at h
      · exact .inl (documented_finish h)
      · cases hstep : step ⟨r, .int m⟩ s t with
        | error e' =>
            rw [hstep] at h
            cases h
            exact (failure_step hstep).imp_right fun hfails => ⟨[], t, ts, s, rfl, .nil, hfails⟩
        | ok s' =>
            rw [hstep] at h
            refine (ih h).imp_right ?_
            rintro ⟨before, u, after, s'', hts, hreads, hfails⟩
            exact ⟨t :: before, u, after, s'', congrArg (t :: ·) hts, .cons hstep hreads, hfails⟩

theorem run_failsIn {ts : List Token} (h : FailsIn o s ts e) : run o s ts = .error e := by
  obtain ⟨before, t, after, s', rfl, hreads, hfails⟩ := h
  have hend : ¬ (t.item == .endOfInput) = true := by
    obtain ⟨-, text, fault, hitem, -⟩ := hfails
    simp [hitem]
  rw [hreads.run_eq, run, if_neg hend, step_failsAt hfails]
  rfl

/-! ## Texts -/

theorem documented_complete {source : String} (h : (Tokens.ofText source).complete = .error e) :
    Documented m e := by
  have htext : Tokens.ofText source = Tokens.ofChars Text.Charset.utf8.width source.toList := rfl
  rw [htext] at h
  unfold Tokens.ofChars Tokens.complete at h
  dsimp only at h
  cases hbroken : (Lexeme.split source.toList).broken with
  | none =>
      simp only [hbroken] at h
      cases h
  | some b =>
      simp only [hbroken] at h
      cases h
      exact .invalid _

theorem ofText_eq_error {source filename : String} {tokens : List Token}
    (h : (Tokens.ofText source).complete = .ok tokens) :
    Script.ofText source filename o = .error e ↔ run o .start tokens = .error e := by
  rw [Script.ofText, Script.ofTextIn, h]
  exact bind_ok_eq_error (f := (assemble · filename))

/-- All before a number is read, and the number stands where arguments are being read but has more digits
than a number may have. -/
def HasLongNumber (o : ReadOptions) (tokens : List Token) (n : Nat) : Prop :=
  ∃ before t after s text, tokens = before ++ t :: after ∧ before.foldlM (step o) .start = .ok s ∧
    s.phase.InArguments ∧ t.item = .number text ∧ text.toList.countP Char.isDigit = n ∧
    Text.maxDigits < n

theorem hasLongNumber_iff {source : String} {tokens : List Token} {fault : Text.IntegerFault}
    (h : (Tokens.ofText source).complete = .ok tokens) :
    FailsIn o .start tokens (.number fault) ↔ ∃ n, fault = .tooLong n ∧ HasLongNumber o tokens n := by
  constructor
  · rintro ⟨before, t, after, s, hts, hreads, hphase, text, fault', hitem, hfault, heq⟩
    cases heq
    have ht : t ∈ tokens := hts ▸ List.mem_append_right before List.mem_cons_self
    have hword := isNumber_of_complete h ht hitem
    by_cases hlong : Text.maxDigits < text.toList.countP Char.isDigit
    · rw [number_of_long hword hlong] at hfault
      cases hfault
      exact ⟨_, rfl, before, t, after, s, text, hts, hreads, hphase, hitem, rfl, hlong⟩
    · rw [number_of_short hword (Nat.le_of_not_lt hlong)] at hfault
      cases hfault
  · rintro ⟨n, rfl, before, t, after, s, text, hts, hreads, hphase, hitem, rfl, hlong⟩
    have ht : t ∈ tokens := hts ▸ List.mem_append_right before List.mem_cons_self
    have hword := isNumber_of_complete h ht hitem
    exact ⟨before, t, after, s, hts, hreads, hphase, text, _, hitem, number_of_long hword hlong, rfl⟩

/-- A text that is not read has a fault or nests too deep, or it has a number with too many digits where
arguments are being read, and all before that is read. -/
theorem ofText_failure (source filename : String) (r : Registry) (m : Nat) :
    (∀ e, Script.ofText source filename ⟨r, .int m⟩ = .error e →
      Documented m e ∨ ∃ n, e = .number (.tooLong n)) ∧
    ∀ n, Script.ofText source filename ⟨r, .int m⟩ = .error (.number (.tooLong n)) ↔
      ∃ tokens, (Tokens.ofText source).complete = .ok tokens ∧
        HasLongNumber ⟨r, .int m⟩ tokens n := by
  cases hcomplete : (Tokens.ofText source).complete with
  | error e' =>
      have hfailed : Script.ofText source filename ⟨r, .int m⟩ = .error e' := by
        rw [Script.ofText, Script.ofTextIn, hcomplete]
        rfl
      have hdocumented : Documented m e' := documented_complete hcomplete
      rw [hfailed]
      refine ⟨fun e he => ?_, fun n => iff_of_false (fun he => ?_) ?_⟩
      · cases he
        exact .inl hdocumented
      · cases he
        cases hdocumented
      · rintro ⟨tokens, htokens, -⟩
        cases htokens
  | ok tokens =>
      refine ⟨fun e he => ?_, fun n => ⟨fun he => ⟨tokens, rfl, ?_⟩, ?_⟩⟩
      · refine (failure_run ((ofText_eq_error hcomplete).1 he)).imp_right fun hfails => ?_
        obtain ⟨before, t, after, s, -, -, -, text, fault, -, -, rfl⟩ := id hfails
        obtain ⟨n, rfl, -⟩ := (hasLongNumber_iff hcomplete).1 hfails
        exact ⟨n, rfl⟩
      · rcases failure_run ((ofText_eq_error hcomplete).1 he) with hdocumented | hfails
        · cases hdocumented
        · obtain ⟨n', hn, hlong⟩ := (hasLongNumber_iff hcomplete).1 hfails
          cases hn
          exact hlong
      · rintro ⟨_, htokens, hlong⟩
        cases htokens
        exact (ofText_eq_error hcomplete).2
          (run_failsIn ((hasLongNumber_iff hcomplete).2 ⟨n, rfl, hlong⟩))

/-! ### A number that is too long -/

def ones (n : Nat) : List Char := List.replicate n '1'

theorem eq_of_mem_ones {c : Char} (hc : c ∈ ones n) : c = '1' := (List.mem_replicate.1 hc).2

theorem isWord_ones (n : Nat) : Lexeme.IsWord (ones n) := by
  refine ⟨fun c hc => ?_, fun hslash => ?_⟩
  · rw [eq_of_mem_ones hc]
    decide
  · exact absurd (eq_of_mem_ones (hslash.subset List.mem_cons_self)) (by decide)

def keepOnes (n : Nat) : String := String.ofList ("keep".toList ++ ' ' :: ones n)

theorem spells_ones (hn : n ≠ 0) :
    Lexeme.Spells (ones n) [.number (String.ofList (ones n))] := by
  have hhead : (ones n).head? = some '1' := by
    rw [ones, List.head?_replicate, if_neg hn]
  have hlast : (ones n).getLast? = some '1' := by
    rw [ones, List.getLast?_replicate, if_neg hn]
  have hne : ones n ≠ [] := by
    intro hnil
    rw [hnil] at hhead
    cases hhead
  have hnumber : Lexeme.isNumber (ones n) = true := by
    have hall : (ones n).all Char.isDigit = true :=
      List.all_eq_true.2 fun c hc => eq_of_mem_ones hc ▸ rfl
    have hunit : Lexeme.isUnit '1' = false := by decide
    simp [Lexeme.isNumber, hlast, hunit, hall, hne]
  have hitem : Lexeme.wordItem (ones n) = .number (String.ofList (ones n)) := by
    rw [Lexeme.wordItem, hhead, if_neg (by decide), if_pos hnumber]
  have hkey : Lexeme.isTextKey (ones n) = false := by
    rw [Bool.eq_false_iff, Lexeme.isTextKey, ne_eq, beq_iff_eq]
    intro hkey
    have hlower := congrArg List.head? hkey
    rw [List.head?_map, hhead] at hlower
    exact absurd hlower (by decide)
  have hend : Lexeme.Stops [] := by
    intro c hc
    cases hc
  have hword := Lexeme.spells_word (isWord_ones n) hne hkey hend Lexeme.spells_nil
  rwa [List.append_nil, hitem] at hword

theorem spells_keepOnes (hn : n ≠ 0) : Lexeme.Spells (keepOnes n).toList
    [.identifier "keep", .number (String.ofList (ones n))] := by
  have hname : Lexeme.wordItem "keep".toList = .identifier "keep" := by decide +kernel
  have hkeep := Lexeme.spells_word (w := "keep".toList) (by decide +kernel) (by decide +kernel)
    (by decide +kernel) (Lexeme.stops_cons (.inl (by decide)))
    (Lexeme.spells_blank (c := ' ') (by decide) (spells_ones hn))
  have htext : (keepOnes n).toList = "keep".toList ++ ' ' :: ones n := String.toList_ofList
  rwa [htext, ← hname]

theorem hasLongNumber_keepOnes (h : Text.maxDigits < n) (o : ReadOptions) :
    ∃ tokens, (Tokens.ofText (keepOnes n)).complete = .ok tokens ∧ HasLongNumber o tokens n := by
  have hspells := spells_keepOnes (Nat.ne_of_gt (Nat.zero_lt_of_lt h))
  obtain ⟨ts, p, hcomplete, hitems⟩ := complete_of_spells Text.ofName?_utf8 hspells
  obtain ⟨⟨_, q⟩, us, rfl, rfl, hrest⟩ := List.map_eq_cons_iff.1 hitems
  obtain ⟨u, _, rfl, hu, -⟩ := List.map_eq_cons_iff.1 hrest
  have hcount : (String.ofList (ones n)).toList.countP Char.isDigit = n := by
    rw [String.toList_ofList, ones, List.countP_replicate]
    rfl
  exact ⟨_, hcomplete, [⟨.identifier "keep", q⟩], u, _, _, _, rfl, rfl, trivial, hu, hcount, h⟩

/-- It is no script, and the error tells no fault of one. -/
theorem ofText_keepOnes : ∃ e, Script.ofText (keepOnes 4301) "f" .default = .error e ∧
    ¬ Documented 64 e := by
  obtain ⟨tokens, hcomplete, hlong⟩ := hasLongNumber_keepOnes (n := 4301) (by decide) .default
  refine ⟨.number (.tooLong 4301), ?_, nofun⟩
  exact (ofText_eq_error hcomplete).2 (run_failsIn ((hasLongNumber_iff hcomplete).2 ⟨_, rfl, hlong⟩))

end MailFilter.Reading
