import Mathlib.Data.List.Perm.Subperm
import MailFilter.Proofs.Script.Printable
import MailFilter.Proofs.Text.Lowering

/-!
# Names and tags in lower case

A tag stays a tag in lower case, and the usual form of a name is a name that can be written.  Of names
that are listed more than once, a script keeps the first.
-/

namespace MailFilter

theorem not_delimiter_of_isLetter {c : Char} (h : Text.isLetter c.toNat = true) :
    Lexeme.isDelimiter c = false := by
  rw [Bool.eq_false_iff]
  intro hdelim
  have hnone : [';', '\x7b', '\x7d', '(', ')', '[', ']', ',', '"', '#'].all
      (fun d => !Text.isLetter d.toNat) = true := by decide
  have := List.all_eq_true.1 hnone c (List.contains_iff_mem.1 hdelim)
  rw [h] at this
  cases this

theorem isWord_lower {name : String} (h : Lexeme.IsWord name.toList) :
    Lexeme.IsWord (Text.lower name).toList := by
  rw [Text.toList_lower]
  refine ⟨fun c hc => ?_, fun hwithin => h.2 ?_⟩
  · obtain ⟨-, hmem | hletter⟩ := Text.isLower_of_mem_lowerAfter hc
    · exact h.1 c hmem
    · exact ⟨Text.not_blank_of_isLetter hletter, not_delimiter_of_isLetter hletter⟩
  · exact Text.infix_of_lowerAfter (by decide) (by decide) hwithin

theorem isTag_lower {name : String} (hword : Lexeme.IsWord name.toList)
    (hcolon : name.toList.head? = some ':') : IsTag (Text.lower name) := by
  refine ⟨isWord_lower hword, ?_, Text.lower_lower name⟩
  cases hcons : name.toList with
  | nil =>
      rw [hcons] at hcolon
      cases hcolon
  | cons c cs =>
      rw [hcons, List.head?_cons, Option.some.injEq] at hcolon
      subst hcolon
      rw [Text.toList_lower, hcons, Text.lowerAfter_cons]
      rfl

theorem isAtom_text (k : Keyword) : Lexeme.IsAtom k.text.toList := by
  have hall : ∀ k ∈ Keyword.all, Lexeme.IsAtom k.text.toList := by decide +kernel
  exact hall k (Keyword.mem_all k)

theorem isName_normalName {name : String} (h : Lexeme.IsAtom name.toList) :
    IsName (Keyword.normalName name) := by
  rw [Keyword.normalName]
  split
  · next k hk =>
      refine ⟨?_, fun _ => Text.lower_lower name⟩
      rw [Keyword.lower_eq_text hk]
      exact isAtom_text k
  · next hnone =>
      refine ⟨h, fun hsome => ?_⟩
      rw [hnone] at hsome
      cases hsome

/-! ## Duplicates -/

theorem nodup_eraseDups (names : List String) : names.eraseDups.Nodup := by
  cases names with
  | nil => exact List.nodup_nil
  | cons name names =>
      rw [List.eraseDups_cons, List.nodup_cons]
      exact ⟨by simp [List.mem_eraseDups], nodup_eraseDups _⟩
termination_by names.length
decreasing_by exact Nat.lt_succ_of_le (List.length_filter_le _ _)

theorem eraseDups_of_nodup {names : List String} (h : names.Nodup) : names.eraseDups = names := by
  induction names with
  | nil => rfl
  | cons name names ih =>
      obtain ⟨hname, hnames⟩ := List.nodup_cons.1 h
      have hfilter : names.filter (fun other => !other == name) = names := by
        rw [List.filter_eq_self]
        intro other hother
        have hne : other ≠ name := fun heq => hname (heq ▸ hother)
        simpa using hne
      rw [List.eraseDups_cons, hfilter, ih hnames]

theorem length_eraseDups_eq {names : List String} :
    names.eraseDups.length = names.length ↔ names.Nodup := by
  constructor
  · intro hlength
    have hsub : names.eraseDups ⊆ names := fun _ => List.mem_eraseDups.1
    have hperm := (List.subperm_of_subset (nodup_eraseDups names) hsub).perm_of_length_le hlength.ge
    exact hperm.nodup_iff.1 (nodup_eraseDups names)
  · intro hnodup
    rw [eraseDups_of_nodup hnodup]

end MailFilter
