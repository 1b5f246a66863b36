import MailFilter.Text.Blank
import MailFilter.Text.Case

/-!
# Lower case is final

A text in lower case is its own lower case, and lowering brings in letters only: a blank or a sign
stands in the lower case form of a text only where the text has it.  Both are read off the table of
case runs, whose lower case forms lie apart from every run.
-/

namespace MailFilter.Text

/-- Ranges of code points without blanks, without signs of ASCII and without the capitals that the
table of runs leaves out. -/
def letterRanges : List (Nat × Nat) :=
  [(0x61, 0x7A), (0xA1, 0x12F), (0x131, 0x167F), (0x1681, 0x1FFF), (0x2060, 0x2FFF),
   (0x3001, 0xD7FF), (0xE000, 0x10FFFF)]

def isLetter (n : Nat) : Bool := letterRanges.any fun (a, b) => a ≤ n && n ≤ b

/-- Whether the code points `lo, lo + step, …, hi` lie outside a run. -/
def CaseRun.isApart (lo hi step : Nat) (r : CaseRun) : Bool :=
  Nat.blt hi r.first || Nat.blt r.last lo ||
    ((Nat.beq step 2 || Nat.beq lo hi) && Nat.beq r.step 2 && Nat.beq ((lo + r.first) % 2) 1)

/-- Whether the lower case forms of a run are letters outside every run. -/
def CaseRun.isFinal (r : CaseRun) : Bool :=
  let lo := (r.first + r.shift).toNat
  let hi := (r.last + r.shift).toNat
  Int.ofNat lo == r.first + r.shift && (letterRanges.any fun (a, b) => a ≤ lo && hi ≤ b) &&
    caseRuns.all (·.isApart lo hi r.step)

theorem isFinal_of_mem {r : CaseRun} (h : r ∈ caseRuns) : r.isFinal = true := by
  have hall : caseRuns.all CaseRun.isFinal = true := by decide +kernel
  exact List.all_eq_true.1 hall r h

theorem not_covers_of_isApart {r r' : CaseRun} {n m : Nat} (hcovers : r.covers n = true)
    (hm : (m : Int) = n + r.shift)
    (hpos : 0 ≤ r.first + r.shift)
    (hapart : r'.isApart (r.first + r.shift).toNat (r.last + r.shift).toNat r.step = true) :
    r'.covers m = false := by
  simp only [CaseRun.covers, Bool.and_eq_true, decide_eq_true_eq, beq_iff_eq] at hcovers
  obtain ⟨⟨hfirst, hlast⟩, hmod⟩ := hcovers
  simp only [CaseRun.isApart, Bool.or_eq_true, Bool.and_eq_true, Nat.blt_eq, Nat.beq_eq] at hapart
  rw [Bool.eq_false_iff]
  intro hcovers'
  simp only [CaseRun.covers, Bool.and_eq_true, decide_eq_true_eq, beq_iff_eq] at hcovers'
  obtain ⟨⟨hfirst', hlast'⟩, hmod'⟩ := hcovers'
  rcases hapart with (h | h) | ⟨⟨h, h'⟩, hparity⟩
  · omega
  · omega
  · rw [h'] at hmod'
    rcases h with h | h
    · rw [h] at hmod
      omega
    · omega

theorem shifted_of_covers {r : CaseRun} {n : Nat} (hr : r ∈ caseRuns) (h : r.covers n = true) :
    isLetter (n + r.shift).toNat = true ∧
      caseRuns.find? (·.covers (n + r.shift).toNat) = none := by
  have hfinal := isFinal_of_mem hr
  simp only [CaseRun.isFinal, Bool.and_eq_true, beq_iff_eq] at hfinal
  obtain ⟨⟨hpos, hletter⟩, hapart⟩ := hfinal
  have hpos' : 0 ≤ r.first + r.shift := by
    rw [← hpos]
    exact Int.natCast_nonneg _
  have hbounds := h
  simp only [CaseRun.covers, Bool.and_eq_true, decide_eq_true_eq] at hbounds
  constructor
  · obtain ⟨⟨a, b⟩, hmem, hab⟩ := List.any_eq_true.1 hletter
    refine List.any_eq_true.2 ⟨(a, b), hmem, ?_⟩
    simp only [Bool.and_eq_true, decide_eq_true_eq] at hab ⊢
    omega
  · rw [List.find?_eq_none]
    intro r' hr'
    rw [Bool.not_eq_true]
    exact not_covers_of_isApart h (by omega) hpos' (List.all_eq_true.1 hapart r' hr')

theorem toNat_ofNat_of_isLetter {n : Nat} (h : isLetter n = true) : (Char.ofNat n).toNat = n := by
  have hvalid : n.isValidChar := by
    obtain ⟨⟨a, b⟩, hmem, hab⟩ := List.any_eq_true.1 h
    simp only [Bool.and_eq_true, decide_eq_true_eq] at hab
    simp only [letterRanges, List.mem_cons, Prod.mk.injEq, List.not_mem_nil, or_false] at hmem
    unfold Nat.isValidChar
    omega
  rw [Char.ofNat, dif_pos hvalid]
  rfl

/-! ## Characters -/

/-- A character that lower case leaves as it is, wherever it stands. -/
def IsLower (c : Char) : Prop := c ≠ 'Σ' ∧ lowerChar c = [c]

theorem lowerChar_of_ascii {c : Char} (h : c.toNat < 0x80) : lowerChar c = [c.toLower] := by
  rw [lowerChar, if_pos h]

theorem isLower_toLower {c : Char} (h : c.toNat < 0x80) :
    IsLower c.toLower ∧ (c.toLower = c ∨ isLetter c.toLower.toNat = true) := by
  have hall : ∀ n : Fin 0x80, (Char.ofNat n).toLower ≠ 'Σ' ∧
      lowerChar (Char.ofNat n).toLower = [(Char.ofNat n).toLower] ∧
      ((Char.ofNat n).toLower = Char.ofNat n ∨ isLetter (Char.ofNat n).toLower.toNat = true) := by
    decide +kernel
  have hc := hall ⟨c.toNat, h⟩
  rw [Char.ofNat_toNat] at hc
  exact ⟨⟨hc.1, hc.2.1⟩, hc.2.2⟩

/-- A character in the lower case form of another one is final, and a letter unless it is that
character. -/
theorem isLower_of_mem_lowerChar {c d : Char} (hc : c ≠ 'Σ') (h : d ∈ lowerChar c) :
    IsLower d ∧ (d = c ∧ lowerChar c = [c] ∨ isLetter d.toNat = true) := by
  by_cases hascii : c.toNat < 0x80
  · rw [lowerChar_of_ascii hascii] at h ⊢
    rw [List.mem_singleton.1 h]
    obtain ⟨hlower, hkept | hletter⟩ := isLower_toLower hascii
    · exact ⟨hlower, .inl ⟨hkept, by rw [hkept]⟩⟩
    · exact ⟨hlower, .inr hletter⟩
  by_cases hdot : c = 'İ'
  · subst hdot
    rw [show lowerChar 'İ' = ['i', '\u0307'] by decide] at h
    rcases List.mem_cons.1 h with rfl | h
    · exact ⟨⟨by decide, by decide⟩, .inr (by decide)⟩
    · rw [List.mem_singleton.1 h]
      exact ⟨⟨by decide, by decide +kernel⟩, .inr (by decide)⟩
  rw [lowerChar, if_neg hascii, if_neg (by simpa using hdot)] at h ⊢
  cases hfind : caseRuns.find? (·.covers c.toNat) with
  | none =>
      rw [hfind] at h
      have hdc : d = c := List.mem_singleton.1 h
      subst hdc
      refine ⟨⟨hc, ?_⟩, .inl ⟨rfl, rfl⟩⟩
      rw [lowerChar, if_neg hascii, if_neg (by simpa using hdot), hfind]
  | some r =>
      rw [hfind] at h
      have hd : d = Char.ofNat (c.toNat + r.shift).toNat := List.mem_singleton.1 h
      obtain ⟨hletter, hnone⟩ :=
        shifted_of_covers (List.mem_of_find?_eq_some hfind)
          (List.find?_some (p := fun r : CaseRun => r.covers c.toNat) hfind)
      have hcode := toNat_ofNat_of_isLetter hletter
      rw [← hd] at hcode
      rw [← hcode] at hletter hnone
      refine ⟨⟨?_, ?_⟩, .inr hletter⟩
      · rintro rfl
        revert hnone
        decide +kernel
      · by_cases hascii' : d.toNat < 0x80
        · -- A letter of ASCII: the Kelvin sign stands for one.
          have hsmall : ∀ n : Fin 0x80, isLetter n = true →
              (Char.ofNat n).toLower = Char.ofNat n := by decide +kernel
          have := hsmall ⟨d.toNat, hascii'⟩ hletter
          rw [Char.ofNat_toNat] at this
          rw [lowerChar_of_ascii hascii', this]
        · have hdot' : d ≠ 'İ' := by
            rintro rfl
            revert hletter
            decide
          rw [lowerChar, if_neg hascii', if_neg (by simpa using hdot'), hnone]

/-! ## Texts -/

/-- The lower case form of a character before and after other ones. -/
def lowerWithin (before : List Char) (c : Char) (after : List Char) : List Char :=
  if c == 'Σ' then [if endsWord before after then 'ς' else 'σ'] else lowerChar c

theorem lowerAfter_cons (before : List Char) (c : Char) (cs : List Char) :
    lowerAfter before (c :: cs) = lowerWithin before c cs ++ lowerAfter (c :: before) cs := rfl

theorem isLower_of_mem_lowerWithin {before after : List Char} {c d : Char}
    (h : d ∈ lowerWithin before c after) :
    IsLower d ∧ (d = c ∧ lowerWithin before c after = [c] ∨ isLetter d.toNat = true) := by
  by_cases hc : c = 'Σ'
  · rw [lowerWithin, if_pos (by simpa using hc), List.mem_singleton] at h
    rw [h]
    split
    · exact ⟨⟨by decide, by decide +kernel⟩, .inr (by decide)⟩
    · exact ⟨⟨by decide, by decide +kernel⟩, .inr (by decide)⟩
  · rw [lowerWithin, if_neg (by simpa using hc)] at h ⊢
    exact isLower_of_mem_lowerChar hc h

theorem isLower_of_mem_lowerAfter {before cs : List Char} {d : Char}
    (h : d ∈ lowerAfter before cs) : IsLower d ∧ (d ∈ cs ∨ isLetter d.toNat = true) := by
  induction cs generalizing before with
  | nil => cases h
  | cons c cs ih =>
      rw [lowerAfter_cons] at h
      rcases List.mem_append.1 h with h | h
      · obtain ⟨hlower, ⟨rfl, -⟩ | hletter⟩ := isLower_of_mem_lowerWithin h
        · exact ⟨hlower, .inl (by simp)⟩
        · exact ⟨hlower, .inr hletter⟩
      · obtain ⟨hlower, hmem | hletter⟩ := ih h
        · exact ⟨hlower, .inl (by simp [hmem])⟩
        · exact ⟨hlower, .inr hletter⟩

theorem lowerAfter_of_isLower {before cs : List Char} (h : ∀ c ∈ cs, IsLower c) :
    lowerAfter before cs = cs := by
  induction cs generalizing before with
  | nil => rfl
  | cons c cs ih =>
      obtain ⟨hsigma, hchar⟩ := h c (by simp)
      rw [lowerAfter_cons, lowerWithin, if_neg (by simpa using hsigma), hchar,
        ih fun d hd => h d (by simp [hd])]
      rfl

theorem toList_lower (s : String) : (lower s).toList = lowerAfter [] s.toList :=
  String.toList_ofList

/-- Lower case is final. -/
theorem lower_lower (s : String) : lower (lower s) = lower s := by
  rw [lower, toList_lower, lowerAfter_of_isLower fun c hc => (isLower_of_mem_lowerAfter hc).1]
  rfl

theorem lowerWithin_ne_nil (before : List Char) (c : Char) (after : List Char) :
    lowerWithin before c after ≠ [] := by
  unfold lowerWithin lowerChar
  repeat' split
  all_goals simp

theorem head_of_lowerAfter {before cs rest : List Char} {d : Char}
    (h : lowerAfter before cs = d :: rest) (hd : isLetter d.toNat = false) :
    ∃ rest', cs = d :: rest' ∧ rest = lowerAfter (d :: before) rest' := by
  cases cs with
  | nil => cases h
  | cons c cs =>
      have hmem : d ∈ lowerWithin before c cs := by
        rw [lowerAfter_cons] at h
        cases hform : lowerWithin before c cs with
        | nil => exact absurd hform (lowerWithin_ne_nil before c cs)
        | cons e form =>
            rw [hform] at h
            cases h
            simp
      obtain ⟨-, ⟨rfl, hform⟩ | hletter⟩ := isLower_of_mem_lowerWithin hmem
      · rw [lowerAfter_cons, hform] at h
        cases h
        exact ⟨cs, rfl, rfl⟩
      · rw [hd] at hletter
        cases hletter

theorem infix_of_letters_append {form cs : List Char} {a b : Char}
    (ha : isLetter a.toNat = false) (hform : ∀ d ∈ form, isLetter d.toNat = true)
    (h : [a, b] <:+: form ++ cs) : [a, b] <:+: cs := by
  induction form with
  | nil => exact h
  | cons d form ih =>
      rw [List.cons_append, List.infix_cons_iff] at h
      rcases h with hfront | hwithin
      · obtain ⟨rfl, -⟩ := List.cons_prefix_cons.1 hfront
        rw [hform a (by simp)] at ha
        cases ha
      · exact ih (fun e he => hform e (by simp [he])) hwithin

theorem infix_of_lowerAfter {before cs : List Char} {a b : Char}
    (ha : isLetter a.toNat = false) (hb : isLetter b.toNat = false)
    (h : [a, b] <:+: lowerAfter before cs) : [a, b] <:+: cs := by
  induction cs generalizing before with
  | nil => exact h
  | cons c cs ih =>
      rw [lowerAfter_cons] at h
      by_cases hkept : lowerWithin before c cs = [c]
      · rw [hkept, List.singleton_append, List.infix_cons_iff] at h
        rcases h with hfront | hwithin
        · obtain ⟨rfl, rest, hrest⟩ := List.cons_prefix_cons.1 hfront
          obtain ⟨rest', rfl, -⟩ := head_of_lowerAfter hrest.symm hb
          exact (List.prefix_append [a, b] rest').isInfix
        · exact (ih hwithin).trans (List.suffix_cons c cs).isInfix
      · have hletters : ∀ d ∈ lowerWithin before c cs, isLetter d.toNat = true := by
          intro d hd
          obtain ⟨-, ⟨-, hsame⟩ | hletter⟩ := isLower_of_mem_lowerWithin hd
          · exact absurd hsame hkept
          · exact hletter
        exact (ih (infix_of_letters_append ha hletters h)).trans (List.suffix_cons c cs).isInfix

theorem not_blank_of_isLetter {c : Char} (h : isLetter c.toNat = true) : isBlank c = false := by
  obtain ⟨⟨a, b⟩, hmem, hab⟩ := List.any_eq_true.1 h
  simp only [Bool.and_eq_true, decide_eq_true_eq] at hab
  simp only [letterRanges, List.mem_cons, Prod.mk.injEq, List.not_mem_nil, or_false] at hmem
  rw [Bool.eq_false_iff]
  intro hblank
  simp only [isBlank, Bool.or_eq_true, Bool.and_eq_true, decide_eq_true_eq, beq_iff_eq] at hblank
  omega

end MailFilter.Text
