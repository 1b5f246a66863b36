import MailFilter.Proofs.Layout.Characters
import MailFilter.Proofs.Layout.Outline
import MailFilter.Proofs.Reading.Leaves
import MailFilter.Proofs.Reading.Script
import MailFilter.Proofs.Text.Charset

/-!
# Scripts as bytes

What is read from bytes can be written in the charset of those bytes, and the new bytes are read as
the same script.
-/

namespace MailFilter

open Layout Reading

variable {charset : String} {c : Text.Charset} {o : LayoutOptions} {t : Script}

/-- One level of indentation is a text of blanks of ASCII. -/
def AsciiIndent (o : LayoutOptions) : Prop :=
  ∃ indent : String, o.indent = .text indent ∧
    ∀ c ∈ indent.toList, Text.isBlank c = true ∧ c.toNat < 0x80

theorem AsciiIndent.blank (ho : AsciiIndent o) : BlankIndent o := by
  obtain ⟨indent, hindent, h⟩ := ho
  exact ⟨indent, hindent, fun c hc => (h c hc).1⟩

theorem AsciiIndent.supplies (ho : AsciiIndent o) (c : Text.Charset) : Supplies c.Covers o where
  ascii _ := c.covers_of_ascii
  indent level := by
    obtain ⟨indent, hindent, h⟩ := ho
    exact forall_indentation hindent (fun d hd => c.covers_of_ascii (h d hd).2) level

theorem asciiIndent_default : AsciiIndent .default := by
  refine ⟨"    ", rfl, fun c hc => ?_⟩
  rw [List.eq_of_mem_replicate (show c ∈ List.replicate 4 ' ' from hc)]
  exact ⟨rfl, by decide⟩

namespace Script

theorem decode_of_ofBytes {bytes : Text.Bytes} {filename : String} {r : ReadOptions}
    (h : ofBytes charset bytes filename r = .ok t) :
    ∃ source, decode charset bytes = .ok source ∧ ofTextIn charset source filename r = .ok t := by
  unfold ofBytes at h
  split at h
  · next source hsource => exact ⟨source, hsource, h⟩
  · cases h
  · cases h

theorem decode_toList (hcharset : Text.Charset.ofName? charset = some c) {bytes : Text.Bytes}
    {source : String} (h : decode charset bytes = .ok source) : c.decode bytes = .ok source.toList := by
  rw [decode, hcharset] at h
  dsimp only at h
  split at h
  · next hdecode =>
      cases h
      rw [hdecode, String.toList_ofList]
  · cases h

theorem over_of_decode (hcharset : Text.Charset.ofName? charset = some c) {bytes : Text.Bytes}
    {source : String} (h : decode charset bytes = .ok source) : Over c.Covers source :=
  Text.covers_of_decode (decode_toList hcharset h)

theorem over_leaves_of_ofBytes (hcharset : Text.Charset.ofName? charset = some c)
    {bytes : Text.Bytes} {filename : String} {r : ReadOptions}
    (h : ofBytes charset bytes filename r = .ok t) : ∀ x ∈ t.leaves, Over c.Covers x := by
  obtain ⟨source, hsource, h⟩ := decode_of_ofBytes h
  exact over_leaves_of_ofTextIn (fun s hs => Text.Charset.covers_lower hs)
    (c.covers_of_ascii (by decide)) (over_of_decode hcharset hsource) h

theorem decode_of_encodeText (hcharset : Text.Charset.ofName? charset = some c) {text : String}
    (h : Over c.Covers text) :
    ∃ bytes, encodeText charset text = .ok bytes ∧ decode charset bytes = .ok text := by
  obtain ⟨bytes, hencode, hdecode⟩ := Text.decode_encode h
  refine ⟨bytes, ?_, ?_⟩
  · rw [encodeText, hcharset]
    dsimp only
    rw [hencode]
    rfl
  · rw [decode, hcharset]
    dsimp only
    rw [hdecode]
    exact congrArg Except.ok String.ofList_toList

/-- A script that was read is read from its canonical text again, in any charset: it means the same,
and has the same canonical text. -/
theorem ofTextIn_text (ho : BlankIndent o) (hprintable : t.Printable) {limit : Value}
    (hdepth : Permits ⟨.default, limit⟩ (Command.heightAll t.commands))
    (hcharset : Text.Charset.ofName? charset = some c) (filename : String) :
    ∃ u, ofTextIn charset (t.text o) filename ⟨.default, limit⟩ = .ok u ∧ u.alike t = true ∧
      u.text o = t.text o := by
  obtain ⟨u, hu, houtline⟩ := ofTextIn_of_printable hprintable ho hcharset filename hdepth
  refine ⟨u, hu, alike_of_outline houtline, text_congr o ?_⟩
  have h := congrArg (outline (commentTexts o)) houtline
  rwa [outline_outline, outline_outline, commentTexts_commentTexts, Function.comp_id] at h

/-- What is read from bytes can be written in their charset, under any layout whose indentation is
blanks of ASCII.  The new bytes are the canonical text, they are read as the same script, and reading
and laying out that text changes nothing. -/
theorem ofBytes_bytes (ho : AsciiIndent o) (hcharset : Text.Charset.ofName? charset = some c)
    {old : Text.Bytes} {filename : String} {limit : Value}
    (h : ofBytes charset old filename ⟨.default, limit⟩ = .ok t) (filename' : String) :
    ∃ bytes u, t.bytes o charset = .ok bytes ∧ decode charset bytes = .ok (t.text o) ∧
      ofBytes charset bytes filename' ⟨.default, limit⟩ = .ok u ∧ u.alike t = true ∧
      u.text o = t.text o := by
  have htext := over_text (ho.supplies c) (over_leaves_of_ofBytes hcharset h)
  obtain ⟨bytes, hbytes, hdecode⟩ := decode_of_encodeText hcharset htext
  obtain ⟨source, -, h⟩ := decode_of_ofBytes h
  obtain ⟨hprintable, hdepth⟩ := printable_of_ofTextIn h
  obtain ⟨u, hu, halike, hfixed⟩ := ofTextIn_text ho.blank hprintable hdepth hcharset filename'
  refine ⟨bytes, u, hbytes, hdecode, ?_, halike, hfixed⟩
  rw [ofBytes, hdecode]
  exact hu

end Script

end MailFilter
