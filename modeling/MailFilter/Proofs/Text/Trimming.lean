import Mathlib.Data.List.DropRight
import MailFilter.Proofs.Text.Lowering

/-!
# Texts without blanks around them

What has been trimmed stays as it is when it is trimmed again, and when it is lowered if the whole text
was in lower case.
-/

namespace MailFilter.Text

theorem dropTrailing_dropTrailing (p : Char → Bool) (cs : List Char) :
    dropTrailing p (dropTrailing p cs) = dropTrailing p cs := by
  induction cs with
  | nil => rfl
  | cons c cs ih =>
      rw [dropTrailing_cons]
      split
      · rfl
      · next hkept => rw [dropTrailing_cons, ih, if_neg hkept]

theorem trimRight_trimRight (cs : List Char) : trimRight (trimRight cs) = trimRight cs :=
  dropTrailing_dropTrailing isBlank cs

theorem dropWhile_trimRight {cs : List Char} (h : cs.dropWhile isBlank = cs) :
    (trimRight cs).dropWhile isBlank = trimRight cs := by
  cases cs with
  | nil => rfl
  | cons c cs =>
      have hc : ¬ isBlank c = true := by
        intro hblank
        rw [List.dropWhile_cons_of_pos hblank] at h
        have := congrArg List.length h
        rw [List.length_cons] at this
        exact absurd (List.dropWhile_sublist isBlank (l := cs)).length_le (by omega)
      rw [trimRight, dropTrailing_cons, if_neg fun hdrop => hc (Bool.and_eq_true_iff.1 hdrop).2,
        List.dropWhile_cons_of_neg hc]

theorem dropTrailing_append {p : Char → Bool} {cs blanks : List Char}
    (h : ∀ c ∈ blanks, p c = true) : dropTrailing p (cs ++ blanks) = dropTrailing p cs := by
  have hblanks : dropTrailing p blanks = [] := by
    induction blanks with
    | nil => rfl
    | cons c blanks ih =>
        obtain ⟨hc, hblanks⟩ := List.forall_mem_cons.1 h
        rw [dropTrailing_cons, ih hblanks, if_pos (by simpa using hc)]
  rw [dropTrailing, List.foldr_append]
  exact congrArg (List.foldr _ · cs) hblanks

theorem trim_append_blanks {cs blanks : List Char} (h : ∀ c ∈ blanks, isBlank c = true) :
    trim (cs ++ blanks) = trim cs := by
  rw [trim, trim, List.dropWhile_append]
  split
  · next hcs => rw [List.dropWhile_eq_nil_iff.2 h, List.isEmpty_iff.1 hcs]
  · exact dropTrailing_append h

theorem trim_blanks_append {blanks cs : List Char} (h : ∀ c ∈ blanks, isBlank c = true) :
    trim (blanks ++ cs) = trim cs := by
  rw [trim, List.dropWhile_append_of_pos h, trim]

theorem trim_trimRight (cs : List Char) : trim (trimRight cs) = trim cs := by
  obtain ⟨tail, hcs, htail⟩ := dropTrailing_append_tail isBlank cs
  calc trim (trimRight cs) = trim (trimRight cs ++ tail) := (trim_append_blanks htail).symm
    _ = trim cs := congrArg trim hcs.symm

theorem trim_trim (cs : List Char) : trim (trim cs) = trim cs := by
  rw [trim, trim, dropWhile_trimRight (List.dropWhile_idempotent isBlank cs), trimRight_trimRight]

theorem trimmed_trimmed (s : String) : trimmed (trimmed s) = trimmed s := by
  rw [trimmed, trimmed, String.toList_ofList, trim_trim]

theorem dropTrailing_subset (p : Char → Bool) (cs : List Char) : dropTrailing p cs ⊆ cs := by
  obtain ⟨tail, htail, -⟩ := dropTrailing_append_tail p cs
  intro c hc
  rw [htail]
  exact List.mem_append_left tail hc

theorem trim_subset (cs : List Char) : trim cs ⊆ cs := fun _ hc =>
  (List.dropWhile_sublist isBlank).subset (dropTrailing_subset isBlank _ hc)

/-! ## Lower case -/

def IsLowered (s : String) : Prop := ∀ c ∈ s.toList, IsLower c

theorem isLowered_lower (s : String) : IsLowered (lower s) := by
  intro c hc
  rw [toList_lower] at hc
  exact (isLower_of_mem_lowerAfter hc).1

/-- Whether a text is of ASCII characters without capitals. -/
def isSmall (s : String) : Bool := s.toList.all fun c => c.toNat < 0x80 && c.toLower == c

theorem isLowered_of_isSmall {s : String} (h : isSmall s = true) : IsLowered s := by
  intro c hc
  have hsmall := List.all_eq_true.1 h c hc
  rw [Bool.and_eq_true, decide_eq_true_iff, beq_iff_eq] at hsmall
  rw [← hsmall.2]
  exact (isLower_toLower hsmall.1).1

theorem IsLowered.append {s t : String} (hs : IsLowered s) (ht : IsLowered t) : IsLowered (s ++ t) := by
  intro c hc
  rw [String.toList_append, List.mem_append] at hc
  exact hc.elim (hs c) (ht c)

theorem IsLowered.lower_eq {s : String} (hs : IsLowered s) : lower s = s := by
  rw [lower, lowerAfter_of_isLower hs, String.ofList_toList]

theorem IsLowered.trimmed {s : String} (hs : IsLowered s) : IsLowered (trimmed s) := by
  intro c hc
  rw [Text.trimmed, String.toList_ofList] at hc
  exact hs c (trim_subset _ hc)

end MailFilter.Text
