import MailFilter.Proofs.Lexeme.Alone
import MailFilter.Proofs.Lexeme.Context

/-!
# Texts read lexeme by lexeme

The tokens of a text split as its first lexeme does: blanks move the place on, a lexeme with a token
puts it in front, and a fault ends the tokens.  A reader that keeps no tokens but those it is asked for
follows the same equations.
-/

namespace MailFilter

namespace Lexeme

theorem split_of_error {c : Char} {cs : List Char} {b : Broken} (h : next c cs = .error b) :
    split (c :: cs) = ⟨[], some b⟩ := by
  rw [split.eq_def]
  dsimp only
  split
  · next b' hb =>
      rw [h] at hb
      cases hb
      rfl
  · next t ht =>
      rw [h] at ht
      cases ht

theorem item_of_next {c : Char} {cs : List Char} {t : Taken (Option Item)} (h : next c cs = .ok t)
    (hc : Text.isBlank c = false) : ∃ item, t.value = some item := by
  cases isNext_of_next h with
  | blank hblank =>
      rw [hc] at hblank
      cases hblank
  | _ => exact ⟨_, rfl⟩

/-- What holds of a text if it holds of what follows its first blank, or its first lexeme. -/
theorem induction {motive : List Char → Prop} (nil : motive [])
    (blank : ∀ c cs, Text.isBlank c = true → motive cs → motive (c :: cs))
    (token : ∀ c cs item text rest, Text.isBlank c = false →
      next c cs = .ok ⟨some item, text, rest⟩ → motive rest → motive (c :: cs))
    (fault : ∀ c cs b, Text.isBlank c = false → next c cs = .error b → motive (c :: cs))
    (cs : List Char) : motive cs := by
  induction hlen : cs.length using Nat.strong_induction_on generalizing cs with
  | _ n ih =>
      cases cs with
      | nil => exact nil
      | cons c cs =>
          cases hc : Text.isBlank c with
          | true => exact blank c cs hc (ih cs.length (by simp [← hlen]) cs rfl)
          | false =>
              cases h : next c cs with
              | error b => exact fault c cs b hc h
              | ok t =>
                  obtain ⟨item, hitem⟩ := item_of_next h hc
                  have hlt := next_rest_lt h
                  exact token c cs item t.text t.rest hc (by rw [h, ← hitem])
                    (ih t.rest.length (hlen ▸ hlt) t.rest rfl)

end Lexeme

namespace Tokens

open Lexeme

variable (width : Char → Nat) (p : Pos)

theorem ofCharsAt_nil : ofCharsAt width p [] = ⟨[⟨.endOfInput, p⟩], none⟩ := by
  rw [ofCharsAt, split.eq_def]
  rfl

theorem ofCharsAt_of_error {c : Char} {cs : List Char} {b : Broken} (h : next c cs = .error b) :
    ofCharsAt width p (c :: cs) =
      ⟨[], some (.at (.lexeme b.fault) (p.after width (b.lead.getD [])))⟩ := by
  rw [ofCharsAt, split_of_error h]
  rfl

theorem ofCharsAt_of_none {c : Char} {cs text rest : List Char}
    (h : next c cs = .ok ⟨none, text, rest⟩) :
    ofCharsAt width p (c :: cs) = ofCharsAt width (p.after width text) rest := by
  rw [ofCharsAt, split_of_next h]
  rfl

theorem ofCharsAt_dropWhile (cs : List Char) :
    ofCharsAt width p cs =
      ofCharsAt width (p.after width (cs.takeWhile Text.isBlank)) (cs.dropWhile Text.isBlank) := by
  cases cs with
  | nil => rfl
  | cons c cs =>
      cases hc : Text.isBlank c with
      | true =>
          rw [ofCharsAt_of_none width p (next_blank cs hc), List.takeWhile_cons_of_pos hc,
            List.dropWhile_cons_of_pos hc]
      | false => rw [List.takeWhile_cons_of_neg (by simp [hc]), List.dropWhile_cons_of_neg (by simp [hc])]; rfl

theorem ofCharsAt_blank {c : Char} (cs : List Char) (hc : Text.isBlank c = true) :
    ofCharsAt width p (c :: cs) = ofCharsAt width (p.advance width c) cs := by
  rw [ofCharsAt_dropWhile, List.takeWhile_cons_of_pos hc, List.dropWhile_cons_of_pos hc,
    ofCharsAt_dropWhile width (p.advance width c) cs]
  rfl

/-- The tokens of a text that is read to its end one lexeme after the other, with its comments or
without them. -/
def scan (comments : Bool) (width : Char → Nat) (p : Pos) (cs : List Char) : Tokens :=
  match cs with
  | [] => ⟨[⟨.endOfInput, p⟩], none⟩
  | c :: cs =>
    match _h : next c cs with
    | .error b => ⟨[], some (.at (.lexeme b.fault) (p.after width (b.lead.getD [])))⟩
    | .ok t =>
      let rest := scan comments width (p.after width t.text) t.rest
      match t.value with
      | some item => if item.isComment && !comments then rest else rest.cons ⟨item, p⟩
      | none => rest
termination_by cs.length
decreasing_by exact next_rest_lt _h

theorem withoutComments_cons (t : Token) (ts : Tokens) :
    (ts.cons t).withoutComments =
      if t.item.isComment then ts.withoutComments else ts.withoutComments.cons t := by
  cases h : t.item.isComment <;> simp [withoutComments, cons, h]

theorem scan_true (cs : List Char) : scan true width p cs = ofCharsAt width p cs := by
  fun_induction scan true width p cs with
  | case1 p => rw [ofCharsAt_nil]
  | case2 p c cs b h => rw [ofCharsAt_of_error width p h]
  | case3 p c cs t h rest item hitem hskip ih => simp at hskip
  | case4 p c cs t h rest item hitem hskip ih =>
      rw [ofCharsAt_of_next width p (by rw [h, ← hitem]), ← ih]
  | case5 p c cs t h rest hnone ih =>
      rw [ofCharsAt_of_none width p (by rw [h, ← hnone]), ← ih]

theorem scan_false (cs : List Char) : scan false width p cs = (ofCharsAt width p cs).withoutComments := by
  fun_induction scan false width p cs with
  | case1 p => rw [ofCharsAt_nil]; rfl
  | case2 p c cs b h => rw [ofCharsAt_of_error width p h]; rfl
  | case3 p c cs t h rest item hitem hskip ih =>
      have hcomment : item.isComment = true := by simpa using hskip
      rw [ofCharsAt_of_next width p (by rw [h, ← hitem]), withoutComments_cons, if_pos hcomment, ← ih]
  | case4 p c cs t h rest item hitem hskip ih =>
      have hcomment : ¬ item.isComment = true := by simpa using hskip
      rw [ofCharsAt_of_next width p (by rw [h, ← hitem]), withoutComments_cons, if_neg hcomment, ← ih]
  | case5 p c cs t h rest hnone ih =>
      rw [ofCharsAt_of_none width p (by rw [h, ← hnone]), ← ih]

end Tokens

end MailFilter
