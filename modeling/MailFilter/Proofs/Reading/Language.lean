import MailFilter.Proofs.Reading.Comments
import MailFilter.Proofs.Reading.Derivations
import MailFilter.Proofs.Reading.Unambiguous

/-!
# The language that is read

What is read is exactly what the grammar derives, and it is read as the script of its only derivation.
Everything else is a syntax error.
-/

namespace MailFilter.Grammar

open Reading

variable {r : Registry}

/-- The tokens of a text: numbers are short enough to be read, and nothing comes after the end. -/
structure IsInput (ts : List Token) : Prop where
  readable : ∀ t ∈ ts, Readable t
  stop : ∀ us t vs, ts = us ++ t :: vs → t.item = .endOfInput → vs = []

theorem isInput_of_complete {source : String} {ts : List Token}
    (h : (Tokens.ofText source).complete = .ok ts)
    (hshort : ∀ t ∈ ts, ∀ text, t.item = .number text →
      text.toList.countP Char.isDigit ≤ Text.maxDigits) : IsInput ts := by
  refine ⟨fun t ht text hitem => ⟨?_, hshort t ht text hitem⟩, fun vs t ws heq hitem => ?_⟩
  · exact isNumber_of_complete h ht hitem
  · obtain ⟨us, p, rfl, hsound⟩ := sound_of_complete h
    by_contra hne
    have ht : t ∈ us := by
      have hlast := congrArg List.dropLast heq
      rw [List.dropLast_concat, List.dropLast_append_of_ne_nil (by simp),
        List.dropLast_cons_of_ne_nil hne] at hlast
      rw [hlast]
      simp
    have hend := hsound t ht
    rw [hitem] at hend
    exact hend

theorem IsInput.withoutComments {ts : List Token} (h : IsInput ts) :
    IsInput (ts.filter (!·.item.isComment)) := by
  refine ⟨fun t ht => h.readable t (List.mem_of_mem_filter ht), fun us t vs heq hitem => ?_⟩
  obtain ⟨before, after, rfl, -, hafter⟩ := List.filter_eq_append_iff.1 heq
  obtain ⟨skipped, rest, rfl, -, -, rfl⟩ := List.filter_eq_cons_iff.1 hafter
  obtain rfl := h.stop (before ++ skipped) t rest (by rw [List.append_assoc]) hitem
  rfl

section Reads

variable {limit : Value} {ts : List Token} (hinput : IsInput ts)
  (hdepth : Permits ⟨r, limit⟩ ts.length)
  (filename : String)

include hinput hdepth

/-- Tokens that have a derivation are read as the script that stands for it. -/
theorem ofTokens_derived {d : ScriptTree r} (hd : d.Derives ts) :
    ∃ s, Script.ofTokens ts filename ⟨r, limit⟩ = .ok s ∧ s.withoutComments = d.script filename := by
  have hskip := Script.ofTokens_withoutComments ts filename ⟨r, limit⟩
  have hlength := List.length_filter_le (fun t : Token => !t.item.isComment) ts
  rw [← show d.tokens = _ from hd] at hskip hlength
  have hread := hinput.withoutComments.readable
  rw [← show d.tokens = _ from hd] at hread
  rw [ofTokens_tokens d hread (hdepth.mono hlength) filename] at hskip
  obtain ⟨s, hs, hscript⟩ := Lexeme.map_ok hskip.symm
  exact ⟨s, hs, hscript.symm⟩

/-- Tokens that have no derivation have a syntax error. -/
theorem ofTokens_refused (hnone : ¬ ∃ d : ScriptTree r, d.Derives ts) :
    ∃ e, Script.ofTokens ts filename ⟨r, limit⟩ = .error (.invalid e) := by
  have hskip := Script.ofTokens_withoutComments ts filename ⟨r, limit⟩
  have hlength := List.length_filter_le (fun t : Token => !t.item.isComment) ts
  have hcomment : ∀ t ∈ ts.filter (!·.item.isComment), t.item.isComment = false := by
    intro t ht
    simpa using List.of_mem_filter ht
  have hdepth : Permits ⟨r, limit⟩
      ((Part.start : Part r).tokens.length + (ts.filter (!·.item.isComment)).length) := by
    rw [show (Part.start : Part r).tokens = [] from rfl, List.length_nil, Nat.zero_add]
    exact hdepth.mono hlength
  rcases run_part .start hinput.withoutComments.readable hcomment hinput.withoutComments.stop hdepth with
    ⟨d, hd⟩ | ⟨e, he⟩
  · exact absurd ⟨d, hd⟩ hnone
  · rw [Script.ofTokens, show State.start = (Part.start : Part r).state from rfl, he] at hskip
    cases hread : Script.ofTokens ts filename ⟨r, limit⟩ with
    | ok s =>
        rw [hread] at hskip
        cases hskip
    | error e' =>
        rw [hread] at hskip
        cases hskip
        exact ⟨e, rfl⟩

end Reads

/-- Tokens are read exactly if the grammar derives them.  The derivation is the only one then, and the
script is the one that stands for it, apart from its comments.  All other tokens have a syntax error. -/
theorem ofTokens_exact {m : Int} {ts : List Token} (hinput : IsInput ts) (hlimit : ts.length ≤ m)
    (filename : String) :
    ((∃ s, Script.ofTokens ts filename ⟨r, .int m⟩ = .ok s) ↔ ∃ d : ScriptTree r, d.Derives ts) ∧
    (∀ d : ScriptTree r, d.Derives ts → (∀ e : ScriptTree r, e.Derives ts → e = d) ∧
      ∃ s, Script.ofTokens ts filename ⟨r, .int m⟩ = .ok s ∧
        s.withoutComments = d.script filename) ∧
    ((¬ ∃ d : ScriptTree r, d.Derives ts) →
      ∃ e, Script.ofTokens ts filename ⟨r, .int m⟩ = .error (.invalid e)) := by
  have hdepth := permits_of_le r hlimit
  refine ⟨⟨?_, ?_⟩, ?_, ofTokens_refused hinput hdepth filename⟩
  · rintro ⟨s, hs⟩
    by_contra hnone
    obtain ⟨e, he⟩ := ofTokens_refused hinput hdepth filename hnone
    rw [hs] at he
    cases he
  · rintro ⟨d, hd⟩
    obtain ⟨s, hs, -⟩ := ofTokens_derived hinput hdepth filename hd
    exact ⟨s, hs⟩
  · intro d hd
    have hunique : ∀ e : ScriptTree r, e.Derives ts → e = d := by
      intro e he
      exact ScriptTree.unique (Eq.trans he hd.symm)
    exact ⟨hunique, ofTokens_derived hinput hdepth filename hd⟩

/-- A declaration, and a command with a test and a block that has a comment in it. -/
def sampleTokens : List Token :=
  [⟨.identifier "Require", .nowhere⟩, ⟨.quoted "fileinto", .nowhere⟩, ⟨.semicolon, .nowhere⟩,
    ⟨.identifier "if", .nowhere⟩, ⟨.identifier "not", .nowhere⟩, ⟨.identifier "true", .nowhere⟩,
    ⟨.openBrace, .nowhere⟩, ⟨.identifier "keep", .nowhere⟩, ⟨.semicolon, .nowhere⟩,
    ⟨.comment "rest", .nowhere⟩, ⟨.closeBrace, .nowhere⟩]

def sampleTree : ScriptTree .default where
  commands :=
    [.simple ⟨⟨"Require", .nowhere, [.quoted "fileinto" .nowhere]⟩, none⟩ .nowhere (by decide +kernel),
      .control ⟨⟨"if", .nowhere, []⟩,
          some (.single ⟨"not", .nowhere, []⟩ (.plain ⟨"true", .nowhere, []⟩))⟩ .nowhere
        [.simple ⟨⟨"keep", .nowhere, []⟩, none⟩ .nowhere (by decide +kernel)] .nowhere
        (by decide +kernel)]
  stop := none

theorem isInput_sampleTokens (n : Nat) : IsInput (sampleTokens.take n) := by
  have hall : ∀ t ∈ sampleTokens.take n, t ∈ sampleTokens := fun t ht => List.mem_of_mem_take ht
  refine ⟨fun t ht text hitem => ?_, fun us t vs heq hitem => ?_⟩
  · have hnone : ∀ t ∈ sampleTokens, t.item.kindName ≠ "NUMBER" := by decide
    exact absurd (by rw [hitem]; rfl) (hnone t (hall t ht))
  · have hnone : ∀ t ∈ sampleTokens, t.item ≠ .endOfInput := by decide
    exact absurd hitem (hnone t (hall t (by rw [heq]; simp)))

/-- The sample is read, and without its last token it is not. -/
theorem ofTokens_exact_sample :
    (∃ s, Script.ofTokens sampleTokens "sample" ⟨.default, .int 64⟩ = .ok s ∧
      s.withoutComments = sampleTree.script "sample" ∧ s.capabilities = ["fileinto"]) ∧
    ∃ e, Script.ofTokens (sampleTokens.take 10) "sample" ⟨.default, .int 64⟩ = .error (.invalid e) := by
  obtain ⟨-, hread, -⟩ := ofTokens_exact (r := .default) (m := 64) (isInput_sampleTokens 11)
    (by decide) "sample"
  obtain ⟨-, s, hs, hscript⟩ := hread sampleTree (by rfl)
  refine ⟨⟨s, hs, hscript, congrArg Script.capabilities hscript⟩, ?_⟩
  obtain ⟨haccepts, -, hrefused⟩ := ofTokens_exact (r := .default) (m := 64) (isInput_sampleTokens 10)
    (by decide) "sample"
  refine hrefused fun hderived => ?_
  obtain ⟨s, hs⟩ := haccepts.2 hderived
  have hfails : (Script.ofTokens (sampleTokens.take 10) "sample" ⟨.default, .int 64⟩).isOk = false := by
    decide +kernel
  rw [hs] at hfails
  cases hfails

end MailFilter.Grammar
