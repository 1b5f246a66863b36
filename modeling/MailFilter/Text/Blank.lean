/-!
# Blank characters

Which characters count as white space, and the trimming and splitting that follow from it.
-/

namespace MailFilter.Text

/-- Whether a character is white space: the Unicode spaces and line breaks, and the four
information separators of ASCII. -/
def isBlank (c : Char) : Bool :=
  let n := c.toNat
  (0x9 ≤ n && n ≤ 0xD) || (0x1C ≤ n && n ≤ 0x20) || n == 0x85 || n == 0xA0 || n == 0x1680 ||
    (0x2000 ≤ n && n ≤ 0x200A) || n == 0x2028 || n == 0x2029 || n == 0x202F || n == 0x205F ||
    n == 0x3000

/-- Drops the longest tail whose characters all satisfy `p`. -/
def dropTrailing (p : Char → Bool) (cs : List Char) : List Char :=
  cs.foldr (fun c r => if r.isEmpty && p c then [] else c :: r) []

def trimRight (cs : List Char) : List Char := dropTrailing isBlank cs

def trim (cs : List Char) : List Char := trimRight (cs.dropWhile isBlank)

def trimmed (s : String) : String := String.ofList (trim s.toList)

/-- The maximal runs without white space, in order. -/
def words (s : String) : List String :=
  let (word, found) := s.toList.foldr
    (fun c (word, found) =>
      if isBlank c then ([], if word.isEmpty then found else String.ofList word :: found)
      else (c :: word, found))
    (([] : List Char), ([] : List String))
  if word.isEmpty then found else String.ofList word :: found

@[simp] theorem dropTrailing_nil (p : Char → Bool) : dropTrailing p [] = [] := rfl

theorem dropTrailing_cons (p : Char → Bool) (c : Char) (cs : List Char) :
    dropTrailing p (c :: cs) =
      if (dropTrailing p cs).isEmpty && p c then [] else c :: dropTrailing p cs := rfl

theorem dropTrailing_append_tail (p : Char → Bool) (cs : List Char) :
    ∃ tail, cs = dropTrailing p cs ++ tail ∧ ∀ c ∈ tail, p c = true := by
  induction cs with
  | nil => exact ⟨[], rfl, by simp⟩
  | cons c cs ih =>
    obtain ⟨tail, hcs, htail⟩ := ih
    rw [dropTrailing_cons]
    split
    · next h =>
      simp only [Bool.and_eq_true, List.isEmpty_iff] at h
      refine ⟨c :: cs, rfl, ?_⟩
      rw [h.1, List.nil_append] at hcs
      intro d hd
      rcases List.mem_cons.1 hd with rfl | hd
      · exact h.2
      · exact htail d (hcs ▸ hd)
    · exact ⟨tail, by rw [List.cons_append, ← hcs], htail⟩

end MailFilter.Text
