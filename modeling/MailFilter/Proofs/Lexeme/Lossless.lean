import MailFilter.Proofs.Lexeme.Faults
import MailFilter.Proofs.Lexeme.Scanning

/-!
# Nothing is lost

A text is its tokens' own texts with blanks before them, in order, and blanks at its end, or from some
character on a lexeme that does not close.  Each token stands where its own text begins, and that text
by itself is read as the token.
-/

namespace MailFilter

/-! ## The text of a token -/

/-- A token with its own text and the blanks before it. -/
structure Segment where
  blank : List Char
  text : List Char
  item : Item

namespace Segment

def join (ss : List Segment) : List Char := ss.flatMap fun s => s.blank ++ s.text

/-- The tokens of segments from a place on: each stands where its own text begins. -/
def tokens (width : Char → Nat) (p : Pos) : List Segment → List Token
  | [] => []
  | s :: ss => ⟨s.item, p.after width s.blank⟩ :: tokens width (p.after width (s.blank ++ s.text)) ss

/-- The own text of a segment is not empty and by itself is read as its token, and only blanks stand
before it. -/
structure Sound (width : Char → Nat) (s : Segment) : Prop where
  blank : ∀ c ∈ s.blank, Text.isBlank c = true
  text : s.text ≠ []
  alone : Tokens.ofChars width s.text =
    ⟨[⟨s.item, .start⟩, ⟨.endOfInput, Pos.start.after width s.text⟩], none⟩

end Segment

namespace Tokens

open Lexeme

/-- The tokens of a text that stands at a place, as segments of it.  Either they make up the text, but
for blanks at its end, or they make it up to a lexeme that does not close. -/
inductive Cover (width : Char → Nat) (p : Pos) : List Char → Tokens → Prop
  | whole (ss : List Segment) (blank : List Char) (hsound : ∀ s ∈ ss, s.Sound width)
      (hblank : ∀ c ∈ blank, Text.isBlank c = true) :
      Cover width p (Segment.join ss ++ blank)
        ⟨Segment.tokens width p ss ++ [⟨.endOfInput, p.after width (Segment.join ss ++ blank)⟩], none⟩
  | broken (ss : List Segment) (blank : List Char) (c : Char) (cs : List Char) (b : Broken)
      (hsound : ∀ s ∈ ss, s.Sound width) (hblank : ∀ c ∈ blank, Text.isBlank c = true)
      (hopen : Text.isBlank c = false) (hbroken : next c cs = .error b)
      (hfault : ∀ found, b.fault ≠ .noWord found) :
      Cover width p (Segment.join ss ++ blank ++ c :: cs)
        ⟨Segment.tokens width p ss, some (.at (.lexeme b.fault)
          ((p.after width (Segment.join ss ++ blank)).after width (b.lead.getD [])))⟩

variable {width : Char → Nat} {p : Pos}

theorem Cover.blank {c : Char} {cs : List Char} {ts : Tokens} (hc : Text.isBlank c = true)
    (h : Cover width (p.advance width c) cs ts) : Cover width p (c :: cs) ts := by
  have hcons : ∀ blank : List Char, (∀ d ∈ blank, Text.isBlank d = true) →
      ∀ d ∈ c :: blank, Text.isBlank d = true := fun blank hblank =>
    List.forall_mem_cons.mpr ⟨hc, hblank⟩
  have hfirst : ∀ {s : Segment}, s.Sound width → Segment.Sound width { s with blank := c :: s.blank } :=
    fun hs => ⟨hcons _ hs.blank, hs.text, hs.alone⟩
  cases h with
  | whole ss blank hsound hblank =>
      cases ss with
      | nil => exact .whole [] (c :: blank) (List.forall_mem_nil _) (hcons blank hblank)
      | cons s ss =>
          obtain ⟨hs, hss⟩ := List.forall_mem_cons.mp hsound
          exact .whole ({ s with blank := c :: s.blank } :: ss) blank
            (List.forall_mem_cons.mpr ⟨hfirst hs, hss⟩) hblank
  | broken ss blank d ds b hsound hblank hopen hbroken hfault =>
      cases ss with
      | nil =>
          exact .broken [] (c :: blank) d ds b (List.forall_mem_nil _) (hcons blank hblank) hopen hbroken
            hfault
      | cons s ss =>
          obtain ⟨hs, hss⟩ := List.forall_mem_cons.mp hsound
          exact .broken ({ s with blank := c :: s.blank } :: ss) blank d ds b
            (List.forall_mem_cons.mpr ⟨hfirst hs, hss⟩) hblank hopen hbroken hfault

theorem Cover.token {text : List Char} {item : Item} {cs : List Char} {ts : Tokens}
    (hs : Segment.Sound width ⟨[], text, item⟩) (h : Cover width (p.after width text) cs ts) :
    Cover width p (text ++ cs) (ts.cons ⟨item, p⟩) := by
  have hjoin : ∀ ss : List Segment, Segment.join (⟨[], text, item⟩ :: ss) = text ++ Segment.join ss :=
    fun _ => rfl
  cases h with
  | whole ss blank hsound hblank =>
      have := Cover.whole (p := p) (⟨[], text, item⟩ :: ss) blank
        (List.forall_mem_cons.mpr ⟨hs, hsound⟩) hblank
      simp only [hjoin, List.append_assoc, Pos.after_append] at this ⊢
      exact this
  | broken ss blank d ds b hsound hblank hopen hbroken hfault =>
      have := Cover.broken (p := p) (⟨[], text, item⟩ :: ss) blank d ds b
        (List.forall_mem_cons.mpr ⟨hs, hsound⟩) hblank hopen hbroken hfault
      simp only [hjoin, List.append_assoc, Pos.after_append] at this ⊢
      exact this

theorem ofCharsAt_alone {c : Char} {cs text rest : List Char} {item : Item}
    (h : next c cs = .ok ⟨some item, text, rest⟩) (q : Pos) :
    ofCharsAt width q text = ⟨[⟨item, q⟩, ⟨.endOfInput, q.after width text⟩], none⟩ := by
  obtain ⟨text', rfl, hread⟩ := next_alone h
  rw [ofCharsAt_of_next width q hread, ofCharsAt_nil]
  rfl

theorem cover_ofCharsAt (cs : List Char) : Cover width p cs (ofCharsAt width p cs) := by
  induction cs using Lexeme.induction generalizing p with
  | nil =>
      rw [ofCharsAt_nil]
      exact .whole [] [] (List.forall_mem_nil _) (List.forall_mem_nil _)
  | blank c cs hc ih =>
      rw [ofCharsAt_blank width p cs hc]
      exact ih.blank hc
  | token c cs item text rest hc h ih =>
      rw [ofCharsAt_of_next width p h, ← next_append h]
      exact ih.token ⟨List.forall_mem_nil _, next_text_ne_nil h, ofCharsAt_alone h .start⟩
  | fault c cs b hc h =>
      rw [ofCharsAt_of_error width p h]
      exact .broken [] [] c cs b (List.forall_mem_nil _) (List.forall_mem_nil _) hc h (next_ne_noWord h)

/-! ## The main result -/

/-- The tokens of a text cover it, and a reader that leaves the comments out gets the others alone. -/
theorem cover_ofText {charset : String} {c : Text.Charset}
    (h : Text.Charset.ofName? charset = some c) (source : String) :
    Cover c.width .start source.toList (ofText source charset) ∧
      scan true c.width .start source.toList = ofText source charset ∧
      scan false c.width .start source.toList = (ofText source charset).withoutComments := by
  rw [ofText, h]
  exact ⟨cover_ofCharsAt _, scan_true _ _ _, scan_false _ _ _⟩

/-- A word, a sign, a comment and a list of both kinds of strings, and a comment that does not close. -/
theorem cover_ofText_unclosed :
    Text.Charset.ofName? "utf-8" = some .utf8 ∧
      Cover Text.Charset.utf8.width .start "keep; # all\n[\"a\", text:\nb\n.\n] /*".toList
        (ofText "keep; # all\n[\"a\", text:\nb\n.\n] /*") :=
  ⟨Text.ofName?_utf8, (cover_ofText Text.ofName?_utf8 _).1⟩

end Tokens

end MailFilter
