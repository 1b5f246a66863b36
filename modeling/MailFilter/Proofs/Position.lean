import Mathlib.Data.List.Induction
import MailFilter.Position

/-!
# Places after a text

What a place says of the text before it: its line counts the line feeds, its column the characters after
the last of them, and its offset the bytes.
-/

namespace MailFilter.Pos

variable {width : Char → Nat}

theorem line_after (p : Pos) (cs : List Char) :
    (p.after width cs).line = p.line + (cs.count '\n' : Int) := by
  induction cs generalizing p with
  | nil => simp
  | cons c cs ih =>
      rw [after_cons, ih, advance, List.count_cons]
      split <;> simp
      omega

theorem offset_advance (p : Pos) (c : Char) : (p.advance width c).offset = p.offset + width c := by
  unfold advance
  split <;> rfl

theorem offset_after {β : Type} {write : Char → List β} {cs : List Char}
    (h : ∀ c ∈ cs, width c = (write c).length) (p : Pos) :
    (p.after width cs).offset = p.offset + (cs.flatMap write).length := by
  induction cs generalizing p with
  | nil => rfl
  | cons c cs ih =>
      obtain ⟨hc, hcs⟩ := List.forall_mem_cons.mp h
      rw [after_cons, ih hcs, offset_advance, hc, List.flatMap_cons, List.length_append, Nat.add_assoc]

theorem offset_le_after (p : Pos) (cs : List Char) : p.offset ≤ (p.after width cs).offset := by
  induction cs generalizing p with
  | nil => exact Nat.le_refl _
  | cons c cs ih =>
      calc p.offset ≤ (p.advance width c).offset := by rw [offset_advance]; exact Nat.le_add_right _ _
        _ ≤ (p.after width (c :: cs)).offset := ih _

theorem offset_lt_after (hwidth : ∀ c, 0 < width c) (p : Pos) {cs : List Char} (hne : cs ≠ []) :
    p.offset < (p.after width cs).offset := by
  obtain ⟨c, cs, rfl⟩ := List.exists_cons_of_ne_nil hne
  calc p.offset < (p.advance width c).offset := by
        rw [offset_advance]
        exact Nat.lt_add_of_pos_right (hwidth c)
    _ ≤ (p.after width (c :: cs)).offset := offset_le_after _ cs

theorem column_after {p : Pos} (hp : p.column = 1) (cs : List Char) :
    (p.after width cs).column = 1 + ((cs.reverse.takeWhile (· != '\n')).length : Int) := by
  induction cs using List.reverseRecOn with
  | nil => simpa using hp
  | append_singleton cs c ih =>
      rw [after_append, after_cons, after_nil, advance, List.reverse_concat]
      by_cases hbreak : c = '\n'
      · simp [hbreak]
      · rw [if_neg (by simpa using hbreak), List.takeWhile_cons_of_pos (by simpa using hbreak),
          List.length_cons, ih]
        dsimp only
        omega

end MailFilter.Pos
