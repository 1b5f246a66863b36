import MailFilter.Proofs.Encoding
import MailFilter.Proofs.Lexeme.Faults
import MailFilter.Proofs.Lexeme.Fronts
import MailFilter.Proofs.Position
import MailFilter.Proofs.Reading.Pieces
import MailFilter.Proofs.Text.Bytes

/-!
# Offsets point into the bytes

Whatever is told of a place in bytes stands there: the bytes before its offset are read as the text before
it, and the line and the column are those of the end of that text.  This holds of tokens, of faults, and
of all that stands at a place in the script that the bytes are.
-/

namespace MailFilter

/-- A place in bytes that has some text before it. -/
structure Pos.Points (c : Text.Charset) (bytes : Text.Bytes) (before : List Char) (p : Pos) : Prop where
  inside : p.offset ≤ bytes.length
  decode : c.decode (bytes.take p.offset) = .ok before
  line : p.line = 1 + (before.count '\n' : Int)
  /-- The characters after the last line feed count. -/
  column : p.column = 1 + ((before.reverse.takeWhile (· != '\n')).length : Int)

theorem Pos.points_after {c : Text.Charset} (hplain : c.IsPlain) {bytes : Text.Bytes}
    {before rest : List Char} (h : c.decode bytes = .ok (before ++ rest)) :
    Pos.Points c bytes before (Pos.start.after c.width before) := by
  have hcovers := fun d hd => Text.covers_of_decode h d (List.mem_append_left rest hd)
  have hoffset : (Pos.start.after c.width before).offset = (before.flatMap c.bytesOf).length :=
    (offset_after (fun d hd => Text.width_eq_length hplain (hcovers d hd)) start).trans (Nat.zero_add _)
  obtain ⟨hinside, hdecode⟩ := Text.decode_take hplain h
  exact ⟨hoffset ▸ hinside, hoffset ▸ hdecode, line_after start before, column_after rfl before⟩

/-- A token stands at the front of a text: it is what is read there, or it ends the text. -/
def Item.Opens (item : Item) (cs : List Char) : Prop :=
  (item = .endOfInput ∧ cs = []) ∨
    ∃ c ds text rest, cs = c :: ds ∧ Lexeme.next c ds = .ok ⟨some item, text, rest⟩

namespace Tokens

open Lexeme

variable {width : Char → Nat} {p : Pos} {cs : List Char}

theorem opens_of_mem {t : Token} (h : t ∈ (ofCharsAt width p cs).tokens) :
    ∃ before rest, cs = before ++ rest ∧ t.pos = p.after width before ∧ t.item.Opens rest := by
  rcases exists_front_of_mem h with ⟨rfl, -⟩ | ⟨ls, rs, c, ds, text, rest, hcs, -, hnext, hpos⟩
  · exact ⟨cs, [], (List.append_nil cs).symm, rfl, .inl ⟨rfl, rfl⟩⟩
  · exact ⟨_, c :: ds, hcs, hpos, .inr ⟨c, ds, text, rest, rfl, hnext⟩⟩

theorem opens_of_failure {e : ReadError} (h : (ofCharsAt width p cs).failure = some e) :
    ∃ fault before rest, cs = before ++ rest ∧ e = .at (.lexeme fault) (p.after width before) ∧
      fault.Opens rest := by
  rw [ofCharsAt] at h
  split at h
  · cases h
  next b hbroken =>
  cases h
  obtain ⟨c, ds, hcs, hnext⟩ := exists_next_of_broken hbroken
  obtain ⟨rest, hrest, hopens⟩ := next_error hnext
  refine ⟨b.fault, (split cs).lexemes.flatMap (·.text) ++ b.lead.getD [], rest, ?_, ?_, hopens⟩
  · rw [List.append_assoc, ← hrest]
    exact hcs
  · rw [placeAfter_eq, Pos.after_append]

theorem pairwise_offset (hwidth : ∀ c, 0 < width c) :
    (ofCharsAt width p cs).tokens.Pairwise (·.pos.offset < ·.pos.offset) := by
  induction cs using Lexeme.induction generalizing p with
  | nil =>
      rw [ofCharsAt_nil]
      exact List.pairwise_singleton _ _
  | blank c cs hc ih =>
      rw [ofCharsAt_blank width p cs hc]
      exact ih
  | token c cs item text rest hc hnext ih =>
      rw [ofCharsAt_of_next width p hnext]
      refine List.pairwise_cons.mpr ⟨fun t ht => ?_, ih⟩
      obtain ⟨before, -, -, hpos, -⟩ := opens_of_mem ht
      rw [hpos]
      exact Nat.lt_of_lt_of_le (Pos.offset_lt_after hwidth p (next_text_ne_nil hnext))
        (Pos.offset_le_after _ before)
  | fault c cs b hc hnext =>
      rw [ofCharsAt_of_error width p hnext]
      exact List.Pairwise.nil

theorem eq_of_complete {ts : Tokens} {tokens : List Token} (h : ts.complete = .ok tokens) :
    tokens = ts.tokens := by
  unfold complete at h
  split at h
  · exact (Except.ok.inj h).symm
  · cases h

end Tokens

/-! ## The main result -/

namespace Script

/-- What is read from bytes points into them.  In UTF-8, Latin-1 and ASCII every token stands after the
text that the bytes before its offset are, in the line and the column where that text ends, and so does
what the reading of tokens stops at; tokens stand at offsets that increase; and every name, argument,
block and comment of the script that the bytes are stands as one of the tokens does. -/
theorem points_of_decode {charset : String} {c : Text.Charset}
    (hcharset : Text.Charset.ofName? charset = some c) (hplain : c.IsPlain) {bytes : Text.Bytes}
    {source : String} (hdecode : decode charset bytes = .ok source) :
    (∀ t ∈ (Tokens.ofText source charset).tokens, ∃ before rest,
      source.toList = before ++ rest ∧ t.pos.Points c bytes before ∧ t.item.Opens rest) ∧
    (∀ e ∈ (Tokens.ofText source charset).failure, ∃ fault p before rest,
      e = .at (.lexeme fault) p ∧ source.toList = before ++ rest ∧ p.Points c bytes before ∧
        fault.Opens rest) ∧
    ((Tokens.ofText source charset).tokens.map (·.pos.offset)).Pairwise (· < ·) ∧
    ∀ (filename : String) (o : ReadOptions) (t : Script), ofBytes charset bytes filename o = .ok t →
      ∀ x ∈ t.pieces, ∃ before rest item,
        source.toList = before ++ rest ∧ x.pos.Points c bytes before ∧ item.Opens rest ∧
          Token.piece? ⟨item, x.pos⟩ = some x := by
  have hsource := decode_toList hcharset hdecode
  have hpoints : ∀ {before rest : List Char}, source.toList = before ++ rest →
      (Pos.start.after c.width before).Points c bytes before := fun hsplit =>
    Pos.points_after hplain (hsplit ▸ hsource)
  have htokens : Tokens.ofText source charset = Tokens.ofCharsAt c.width .start source.toList := by
    rw [Tokens.ofText, hcharset]
    rfl
  have htoken : ∀ t ∈ (Tokens.ofText source charset).tokens, ∃ before rest,
      source.toList = before ++ rest ∧ t.pos.Points c bytes before ∧ t.item.Opens rest := by
    intro t ht
    obtain ⟨before, rest, hsplit, hpos, hopens⟩ := Tokens.opens_of_mem (htokens ▸ ht)
    exact ⟨before, rest, hsplit, hpos ▸ hpoints hsplit, hopens⟩
  refine ⟨htoken, fun e he => ?_, ?_, fun filename o t ht x hx => ?_⟩
  · obtain ⟨fault, before, rest, hsplit, rfl, hopens⟩ :=
      Tokens.opens_of_failure (htokens ▸ Option.mem_def.mp he)
    exact ⟨fault, _, before, rest, rfl, hsplit, hpoints hsplit, hopens⟩
  · rw [List.pairwise_map, htokens]
    exact Tokens.pairwise_offset (Text.width_pos c)
  · obtain ⟨source', hsource', ht⟩ := decode_of_ofBytes ht
    cases hdecode.symm.trans hsource'
    obtain ⟨tokens, hcomplete, ht⟩ := ok_of_bind ht
    obtain ⟨⟨item, p⟩, hmem, hpiece⟩ := exists_of_mem_pieces ht x hx
    have hpos : x.pos = p := Token.pos_of_piece? hpiece
    obtain ⟨before, rest, hsplit, hp, hopens⟩ := htoken _ (Tokens.eq_of_complete hcomplete ▸ hmem)
    exact ⟨before, rest, item, hsplit, hpos ▸ hp, hopens, hpos ▸ hpiece⟩

/-- A name that stands after a comment with a character of two bytes. -/
def accent : Text.Bytes := [0x23, 0xC3, 0xA9, 0x0A, 0x6B, 0x65, 0x65, 0x70, 0x3B]

theorem points_of_decode_accent :
    Text.Charset.ofName? "utf-8" = some .utf8 ∧ Text.Charset.utf8.IsPlain ∧
      decode "utf-8" accent = .ok "#é\nkeep;" ∧
      ⟨.identifier "keep", ⟨2, 1, 4⟩⟩ ∈ (Tokens.ofText "#é\nkeep;").tokens ∧
      (∃ before rest, "#é\nkeep;".toList = before ++ rest ∧
        Pos.Points .utf8 accent before ⟨2, 1, 4⟩ ∧ (Item.identifier "keep").Opens rest) ∧
      ∃ t, ofBytes "utf-8" accent "f" .default = .ok t ∧
        t.pieces.map (·.pos) = [⟨2, 1, 4⟩, ⟨1, 1, 0⟩] ∧
        ∀ x ∈ t.pieces, ∃ before rest item, "#é\nkeep;".toList = before ++ rest ∧
          x.pos.Points .utf8 accent before ∧ item.Opens rest ∧
          Token.piece? ⟨item, x.pos⟩ = some x := by
  have hdecode : decode "utf-8" accent = .ok "#é\nkeep;" := by
    rw [decode, Text.ofName?_utf8]
    rfl
  have hmem : ⟨.identifier "keep", ⟨2, 1, 4⟩⟩ ∈ (Tokens.ofText "#é\nkeep;").tokens := by
    decide +kernel
  obtain ⟨t, ht, hplaces⟩ : ∃ t, ofBytes "utf-8" accent "f" .default = .ok t ∧
      t.pieces.map (·.pos) = [⟨2, 1, 4⟩, ⟨1, 1, 0⟩] :=
    exists_ok_of_forall (by decide +kernel) (by decide +kernel)
  obtain ⟨htoken, -, -, hpieces⟩ := points_of_decode Text.ofName?_utf8 (.inl rfl) hdecode
  exact ⟨Text.ofName?_utf8, .inl rfl, hdecode, hmem, htoken _ hmem, t, ht, hplaces,
    hpieces "f" .default t ht⟩

end Script

end MailFilter
