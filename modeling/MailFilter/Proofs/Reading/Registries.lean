import MailFilter.Proofs.Reading.Moves

/-!
# Reading with other registries

A reader asks its registry whether a command has a block, and nothing else.  So a reader that knows less
accepts at least as much, and all readers that accept a text read the same script.
-/

namespace MailFilter

/-- A registry with a signature for no keyword but those another one has it for. -/
def Registry.Within (r' r : Registry) : Prop :=
  ∀ k s, r'.signature? k = some s → r.signature? k = some s

theorem Registry.Within.isControl? {r' r : Registry} (h : r'.Within r) {name : String} {control : Bool}
    (hcontrol : r'.isControl? name = some control) : r.isControl? name = some control := by
  unfold Registry.isControl? at hcontrol ⊢
  split at hcontrol
  · next s hs =>
      obtain ⟨k, hk, hs⟩ := Option.bind_eq_some_iff.mp hs
      have hlookup : r.lookup? name = some s := Option.bind_eq_some_iff.mpr ⟨k, hk, h k s hs⟩
      rw [hlookup]
      exact hcontrol
  · cases hcontrol

namespace Reading

variable {r r' : Registry} {limit : Value} {s s' : State} {t : Token}

theorem moves_within (h : r'.Within r) (hmoves : Moves ⟨r, limit⟩ s t s') :
    Moves ⟨r', limit⟩ s t s' := by
  cases hmoves with
  | comment text ht => exact .comment text ht
  | command name hat ht => exact .command name hat ht
  | closeBrace f frames hat hframes ht => exact .closeBrace f frames hat hframes ht
  | argument head a hat ht => exact .argument head a hat ht
  | testArgument head holders test a hat ht => exact .testArgument head holders test a hat ht
  | test head holders name hat ht hdepth => exact .test head holders name hat ht hdepth
  | openParen head holders test hat ht => exact .openParen head holders test hat ht
  | comma head holders list hat ht => exact .comma head holders list hat ht
  | closeParen head holders list hat ht => exact .closeParen head holders list hat ht
  | semicolon head hat ht hname => exact .semicolon head hat ht (mt h.isControl? hname)
  | openBrace head hat ht hname hdepth => exact .openBrace head hat ht (mt h.isControl? hname) hdepth

end Reading

namespace Script

variable {r r' : Registry} {limit : Value} {charset source filename : String} {t t' : Script}

theorem ofTextIn_within (hwithin : r'.Within r) (h : ofTextIn charset source filename ⟨r, limit⟩ = .ok t) :
    ofTextIn charset source filename ⟨r', limit⟩ = .ok t := by
  obtain ⟨tokens, htokens, h⟩ := ok_of_bind h
  obtain ⟨b, hrun, h⟩ := ok_of_bind h
  rw [ofTextIn, htokens]
  show ofTokens tokens filename ⟨r', limit⟩ = .ok t
  rw [ofTokens, Reading.run_mono (Reading.moves_within hwithin) hrun]
  exact h

/-- Readers with any two registries read the same script, if both read one. -/
theorem ofTextIn_agree (h : ofTextIn charset source filename ⟨r, limit⟩ = .ok t)
    (h' : ofTextIn charset source filename ⟨r', limit⟩ = .ok t') : t = t' := by
  -- What either of them accepts is accepted by a reader that knows nothing.
  have hnothing : ∀ r : Registry, Registry.Within ⟨[], none⟩ r := fun _ _ _ hnone => nomatch hnone
  have hboth := (ofTextIn_within (hnothing r) h).symm.trans (ofTextIn_within (hnothing r') h')
  exact Except.ok.inj hboth

/-- A reader that knows only some of the commands of another one reads every script that the other one
reads, and the same, whatever the servers of the two offer.  What a reader knows never changes what it
reads, only whether it reads it. -/
theorem ofTextIn_fewer {table : List Signature} (hne : table ≠ [])
    (hsub : ∀ k s, table.find? (·.keyword == k) = some s → r.signature? k = some s)
    (server : Option (List String)) (charset source filename : String) (limit : Value) :
    (∀ t, ofTextIn charset source filename ⟨r, limit⟩ = .ok t →
      ofTextIn charset source filename ⟨.make table server, limit⟩ = .ok t) ∧
    ∀ (r₁ r₂ : Registry) (t₁ t₂ : Script), ofTextIn charset source filename ⟨r₁, limit⟩ = .ok t₁ →
      ofTextIn charset source filename ⟨r₂, limit⟩ = .ok t₂ → t₁ = t₂ := by
  refine ⟨fun t => ofTextIn_within fun k s hs => hsub k s ?_, fun _ _ _ _ => ofTextIn_agree⟩
  rwa [Registry.signature?, Registry.make, if_neg (by simpa using hne)] at hs

/-- A reader that knows `require` alone reads a script with a rule. -/
theorem ofTextIn_fewer_rule :
    Signature.table.take 1 ≠ [] ∧
      (∀ k s, (Signature.table.take 1).find? (·.keyword == k) = some s →
        Registry.default.signature? k = some s) ∧
      ∃ t, ofText "if true { keep; }" "" .default = .ok t ∧
        ofText "if true { keep; }" "" ⟨.make (Signature.table.take 1) none, defaultLimit⟩ = .ok t := by
  have hne : Signature.table.take 1 ≠ [] := List.cons_ne_nil _ _
  have hsub : ∀ k s, (Signature.table.take 1).find? (·.keyword == k) = some s →
      Registry.default.signature? k = some s := by
    intro k s h
    have hfront : Signature.table.find? (·.keyword == k) = some s := by
      rw [← List.take_append_drop 1 Signature.table, List.find?_append, h]
      rfl
    exact hfront
  obtain ⟨t, ht⟩ := exists_ok_of_isOk
    (show (ofText "if true { keep; }" "" .default).isOk = true by decide +kernel)
  exact ⟨hne, hsub, t, ht, (ofTextIn_fewer hne hsub none "utf-8" _ "" defaultLimit).1 t ht⟩

end Script

end MailFilter
