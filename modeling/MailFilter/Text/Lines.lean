/-!
# Lines

A text as its lines, which line feeds part. There is always at least one line. A text from elsewhere
may break its lines by carriage returns, alone or before line feeds.
-/

namespace MailFilter.Text

def lines : List Char → List (List Char)
  | [] => [[]]
  | c :: cs =>
    if c == '\n' then [] :: lines cs
    else match lines cs with
      | [] => [[c]]
      | l :: ls => (c :: l) :: ls

def unlines (ls : List (List Char)) : List Char := ls.flatMap (· ++ ['\n'])

/-- Every line break as one line feed. -/
def unifyBreaks : List Char → List Char
  | [] => []
  | '\r' :: '\n' :: cs => '\n' :: unifyBreaks cs
  | c :: cs => (if c == '\r' then '\n' else c) :: unifyBreaks cs

theorem lines_ne_nil (cs : List Char) : lines cs ≠ [] := by
  cases cs with
  | nil => simp [lines]
  | cons c cs =>
    rw [lines]
    split
    · simp
    · split <;> simp

/-- The lines hold the text, but for one line feed at its end. -/
theorem unlines_lines (cs : List Char) : unlines (lines cs) = cs ++ ['\n'] := by
  induction cs with
  | nil => rfl
  | cons c cs ih =>
    rw [lines]
    split
    · next h =>
      rw [beq_iff_eq] at h
      simpa [unlines, h] using ih
    · split
      · next h => exact absurd h (lines_ne_nil cs)
      · next h =>
        rw [h] at ih
        simpa [unlines] using ih

end MailFilter.Text
