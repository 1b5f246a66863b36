import MailFilter.Proofs.Lexeme.Fronts
import MailFilter.Proofs.Lexeme.LineEndings
import MailFilter.Proofs.Position
import MailFilter.Proofs.Reading.Relocation

/-!
# Scripts with either line ending

A text whose lines end in a carriage return and a line feed has the tokens of the text whose lines end
in line feeds alone, in the same lines and columns, and offsets grow by one for every line before.  So
it is read as the same script, or fails with the same error.
-/

namespace MailFilter

open LineEnding

/-! ## Places -/

namespace Pos

/-- Where what stands at a place stands once every line break before it takes two characters. Lines
count the line breaks. -/
def inCrlf (p : Pos) : Pos := ⟨p.line, p.column, p.offset + (p.line - 1).toNat⟩

theorem isShift_inCrlf : IsShift inCrlf := ⟨fun _ => rfl, fun _ => rfl, rfl, rfl⟩

variable {width : Char → Nat}

theorem one_le_line_after {p : Pos} (hp : 1 ≤ p.line) (cs : List Char) :
    1 ≤ (p.after width cs).line := by
  rw [line_after]
  omega

theorem offset_inCrlf (before : List Char) :
    (start.after width before).inCrlf.offset =
      (start.after width before).offset + before.count '\n' := by
  have hline : (start.after width before).line = 1 + (before.count '\n' : Int) :=
    line_after start before
  simp only [inCrlf, hline]
  omega

theorem after_apply (hwidth : width '\r' = 1) {p : Pos} (hp : 1 ≤ p.line) (cs : List Char) :
    p.inCrlf.after width (crlf.apply cs) = (p.after width cs).inCrlf := by
  induction cs generalizing p with
  | nil => simp
  | cons c cs ih =>
      have ih := ih (p := p.advance width c) (one_le_line_after hp [c])
      by_cases hc : c = '\n'
      · subst hc
        have hadvance : (p.inCrlf.advance width '\r').advance width '\n' =
            (p.advance width '\n').inCrlf := by
          simp [advance, inCrlf, hwidth]
          omega
        calc p.inCrlf.after width (crlf.apply ('\n' :: cs))
            = ((p.inCrlf.advance width '\r').advance width '\n').after width (crlf.apply cs) := by
              rw [crlf_break, after_cons, after_cons]
          _ = (p.advance width '\n').inCrlf.after width (crlf.apply cs) := by rw [hadvance]
          _ = (p.after width ('\n' :: cs)).inCrlf := ih
      · have hadvance : p.inCrlf.advance width c = (p.advance width c).inCrlf := by
          simp [advance, inCrlf, hc]
          omega
        calc p.inCrlf.after width (crlf.apply (c :: cs))
            = (p.inCrlf.advance width c).after width (crlf.apply cs) := by
              rw [apply_cons_of_ne _ _ hc, after_cons]
          _ = (p.advance width c).inCrlf.after width (crlf.apply cs) := by rw [hadvance]
          _ = (p.after width (c :: cs)).inCrlf := ih

end Pos

/-! ## Tokens -/

namespace Tokens

open Lexeme

variable {width : Char → Nat}

theorem ofCharsAt_comment_apply (hwidth : width '\r' = 1) {p : Pos} (hp : 1 ≤ p.line)
    {cs text rest : List Char} {item : Item} (hnext : next '#' cs = .ok ⟨some item, text, rest⟩) :
    ofCharsAt width p.inCrlf ('#' :: crlf.apply cs) =
      .cons ⟨item, p.inCrlf⟩ (ofCharsAt width (p.after width text).inCrlf (crlf.apply rest)) := by
  have hafter : ∀ line : List Char, '\n' ∉ line →
      p.inCrlf.after width ('#' :: line) = (p.after width ('#' :: line)).inCrlf := fun line hline => by
    rw [← Pos.after_apply hwidth hp, apply_of_not_mem _ (by simp [hline])]
  obtain ⟨line, hline, rfl | ⟨rest', rfl⟩⟩ := line_cases cs
  · have hcomment := next_hash [] hline (by simp)
    rw [List.append_nil] at hcomment
    obtain ⟨⟨rfl⟩, rfl, rfl⟩ := by simpa using hnext.symm.trans hcomment
    rw [apply_of_not_mem _ hline, ofCharsAt_of_next width _ hcomment, hafter _ hline, apply_nil]
  · have hcomment := next_hash ('\n' :: rest') hline (by simp)
    obtain ⟨⟨rfl⟩, rfl, rfl⟩ := by simpa using hnext.symm.trans hcomment
    have hlonger := next_hash ('\n' :: crlf.apply rest')
      (show '\n' ∉ line ++ ['\r'] by simp [hline]) (by simp)
    rw [dropTrailing_concat line (by rfl)] at hlonger
    have hreturn : p.inCrlf.after width ('#' :: (line ++ ['\r'])) =
        (p.after width ('#' :: line)).inCrlf.advance width '\r' := by
      rw [← List.cons_append, Pos.after_append, hafter _ hline]
      rfl
    have hblank := ofCharsAt_blank width (p.after width ('#' :: line)).inCrlf
      ('\n' :: crlf.apply rest') (show Text.isBlank '\r' = true by decide)
    rw [apply_line _ _ hline, lead, ofCharsAt_of_next width _ hlonger, hreturn, ← hblank, ← crlf_break]

theorem ofCharsAt_apply (hwidth : width '\r' = 1) {cs : List Char} (h : Breakable cs) {p : Pos}
    (hp : 1 ≤ p.line) :
    ofCharsAt width p.inCrlf (crlf.apply cs) = (ofCharsAt width p cs).relocate Pos.inCrlf := by
  induction cs using Lexeme.induction generalizing p with
  | nil =>
      rw [apply_nil, ofCharsAt_nil, ofCharsAt_nil]
      rfl
  | blank c cs hc ih =>
      have hafter : p.inCrlf.after width (crlf.apply [c]) = (p.advance width c).inCrlf :=
        Pos.after_apply hwidth hp [c]
      have ih := ih h.tail (p := p.advance width c) (Pos.one_le_line_after hp [c])
      rw [ofCharsAt_blank width p cs hc, ← ih, ← hafter]
      by_cases hbreak : c = '\n'
      · subst hbreak
        rw [crlf_break, ofCharsAt_blank _ _ _ (by decide), ofCharsAt_blank _ _ _ (by decide)]
        rfl
      · rw [apply_cons_of_ne _ _ hbreak, ofCharsAt_blank _ _ _ hc, apply_cons_of_ne _ _ hbreak]
        rfl
  | token c cs item text rest hc hnext ih =>
      have hbreak : c ≠ '\n' := by
        rintro rfl
        exact absurd hc (by decide)
      have ih := ih (h.rest (next_append hnext)) (p := p.after width text) (Pos.one_le_line_after hp text)
      rw [ofCharsAt_of_next width p hnext, apply_cons_of_ne _ _ hbreak]
      by_cases hhash : c = '#'
      · subst hhash
        rw [ofCharsAt_comment_apply hwidth hp hnext, ih]
        rfl
      · have happly := next_apply h hc hhash
        rw [hnext] at happly
        rw [ofCharsAt_of_next width _ happly, Pos.after_apply hwidth hp, ih]
        rfl
  | fault c cs b hc hnext =>
      have hbreak : c ≠ '\n' := by
        rintro rfl
        exact absurd hc (by decide)
      have hhash : c ≠ '#' := by
        rintro rfl
        rw [next, if_neg (by decide), if_pos (by rfl)] at hnext
        cases hnext
      have happly := next_apply h hc hhash
      rw [hnext] at happly
      rw [ofCharsAt_of_error width p hnext, apply_cons_of_ne _ _ hbreak,
        ofCharsAt_of_error width _ happly]
      have hlead : b.inCrlf.lead.getD [] = crlf.apply (b.lead.getD []) := by
        rw [Broken.inCrlf]
        cases b.lead <;> simp
      rw [hlead, Pos.after_apply hwidth hp]
      rfl

theorem exists_before {p : Pos} {cs : List Char} {t : Token} (h : t ∈ (ofCharsAt width p cs).tokens) :
    ∃ before, before <+: cs ∧ t.pos = p.after width before := by
  rcases exists_front_of_mem h with ⟨rfl, -⟩ | ⟨ls, rs, c, ds, text, rest, hcs, -, -, hpos⟩
  · exact ⟨cs, List.prefix_refl cs, rfl⟩
  · exact ⟨_, ⟨c :: ds, hcs.symm⟩, hpos⟩

theorem complete_relocate (f : Pos → Pos) (ts : Tokens) :
    (ts.relocate f).complete = (match ts.complete with
      | .ok tokens => .ok (tokens.map (·.relocate f))
      | .error e => .error (e.relocate f)) := by
  obtain ⟨tokens, failure⟩ := ts
  cases failure <;> rfl

end Tokens

/-! ## Scripts -/

theorem Text.Charset.width_return (c : Charset) : c.width '\r' = 1 := by
  rw [Charset.width, if_pos (by decide)]

theorem Script.ofTextIn_of_relocate {f : Pos → Pos} (hf : Pos.IsShift f) {charset source source' : String}
    (h : Tokens.ofText source' charset = (Tokens.ofText source charset).relocate f) (filename : String)
    (o : ReadOptions) :
    ofTextIn charset source' filename o =
      relocated f (Script.relocate f) (ofTextIn charset source filename o) := by
  rw [ofTextIn, ofTextIn, h, Tokens.complete_relocate]
  cases (Tokens.ofText source charset).complete with
  | error e => rfl
  | ok tokens => exact ofTokens_relocate hf tokens filename o

/-- A text without carriage returns, in which no backslash takes a line feed, is read alike with either
line ending: the tokens are the same in the same lines and columns, and so are the script, but for its
places, and the error. -/
theorem ofText_crlf {charset : String} {c : Text.Charset}
    (hcharset : Text.Charset.ofName? charset = some c) {source : String}
    (hreturn : '\r' ∉ source.toList) (hescape : ¬ ['\\', '\n'] <:+: source.toList) :
    (Tokens.ofText (String.ofList (crlf.apply source.toList)) charset =
      (Tokens.ofText source charset).relocate Pos.inCrlf) ∧
    (∀ t ∈ (Tokens.ofText source charset).tokens, ∃ before, before <+: source.toList ∧
      t.pos = Pos.start.after c.width before ∧
      t.pos.inCrlf = ⟨t.pos.line, t.pos.column, t.pos.offset + before.count '\n'⟩) ∧
    (∀ filename o, Script.ofTextIn charset (String.ofList (crlf.apply source.toList)) filename o =
      relocated Pos.inCrlf (Script.relocate Pos.inCrlf) (Script.ofTextIn charset source filename o)) ∧
    ∀ script : Script, (script.relocate Pos.inCrlf).alike script = true ∧
      (script.relocate Pos.inCrlf).outline id = script.outline id := by
  have htokens : Tokens.ofText (String.ofList (crlf.apply source.toList)) charset =
      (Tokens.ofText source charset).relocate Pos.inCrlf := by
    rw [Tokens.ofText, Tokens.ofText, hcharset]
    dsimp only
    rw [String.toList_ofList, Tokens.ofChars_eq, Tokens.ofChars_eq]
    exact Tokens.ofCharsAt_apply c.width_return ⟨hreturn, hescape⟩ (p := .start) (by decide)
  refine ⟨htokens, fun t ht => ?_, Script.ofTextIn_of_relocate Pos.isShift_inCrlf htokens,
    fun script => ?_⟩
  · rw [Tokens.ofText, hcharset] at ht
    obtain ⟨before, hbefore, hpos⟩ := Tokens.exists_before (p := .start) ht
    refine ⟨before, hbefore, hpos, ?_⟩
    have hoffset : t.pos.inCrlf.offset = t.pos.offset + before.count '\n' :=
      hpos ▸ Pos.offset_inCrlf before
    rw [← hoffset]
    rfl
  · have houtline := Script.outline_relocate Pos.inCrlf id script
    exact ⟨Script.alike_of_outline houtline, houtline⟩

/-- A script with a comment, a string and a multi-line string over several lines. -/
def vacationLines : String := "# away\nvacation [\"a\nb\", text: # c\nd\n.\n];"

theorem ofText_crlf_vacation :
    Text.Charset.ofName? "utf-8" = some .utf8 ∧ '\r' ∉ vacationLines.toList ∧
      ¬ ['\\', '\n'] <:+: vacationLines.toList ∧
      Tokens.ofText (String.ofList (crlf.apply vacationLines.toList)) =
        (Tokens.ofText vacationLines).relocate Pos.inCrlf ∧
      ∃ t, Script.ofText vacationLines "f" .default = .ok t ∧
        Script.ofText (String.ofList (crlf.apply vacationLines.toList)) "f" .default =
          .ok (t.relocate Pos.inCrlf) ∧
        (t.relocate Pos.inCrlf).alike t = true := by
  have hreturn : '\r' ∉ vacationLines.toList := by decide
  have hescape : ¬ ['\\', '\n'] <:+: vacationLines.toList := by decide
  obtain ⟨htokens, -, hscript, halike⟩ := ofText_crlf Text.ofName?_utf8 hreturn hescape
  obtain ⟨t, ht⟩ := exists_ok_of_isOk
    (show (Script.ofText vacationLines "f" .default).isOk = true by decide +kernel)
  refine ⟨Text.ofName?_utf8, hreturn, hescape, htokens, t, ht, ?_, (halike t).1⟩
  exact (hscript "f" .default).trans (congrArg (relocated Pos.inCrlf (Script.relocate Pos.inCrlf)) ht)

end MailFilter
