import MailFilter.Proofs.Result
import MailFilter.Proofs.Text.Charset

/-!
# Front parts of bytes

Bytes that are read as a text in UTF-8, Latin-1 or ASCII are the bytes of its characters, one after the
other.  So a front part of the text is what its own bytes are read as, and they are the front part of the
bytes of the text.
-/

namespace MailFilter.Text

/-! ## UTF-8 -/

private theorem ofNat_eq_byte {n : Nat} {b : UInt8} (h : n = b.toNat) : UInt8.ofNat n = b := by
  rw [h, UInt8.ofNat_toNat]

def IsTail (b : UInt8) : Prop := 0x80 ≤ b.toNat ∧ b.toNat ≤ 0xBF

theorem utf8Bytes_one {b : UInt8} (hb : b.toNat < 0x80) : utf8Bytes (Char.ofNat b.toNat) = [b] := by
  unfold utf8Bytes
  rw [toNat_ofNat_char (by omega)]
  dsimp only
  rw [if_pos hb, UInt8.ofNat_toNat]

theorem utf8Bytes_two {b d : UInt8} (hlow : 0xC2 ≤ b.toNat) (hhigh : b.toNat ≤ 0xDF) (hd : IsTail d) :
    utf8Bytes (Char.ofNat (64 * (b.toNat - 0xC0) + (d.toNat - 0x80))) = [b, d] := by
  obtain ⟨hd, hd'⟩ := hd
  unfold utf8Bytes
  rw [toNat_ofNat_valid (.inl (by omega))]
  dsimp only
  rw [if_neg (by omega), if_pos (by omega), ofNat_eq_byte (b := b) (by omega),
    ofNat_eq_byte (b := d) (by omega)]

theorem utf8Bytes_three {b d e : UInt8} (hlow : 0xE0 ≤ b.toNat) (hhigh : b.toNat ≤ 0xEF)
    (hd : (if b.toNat = 0xE0 then 0xA0 else 0x80) ≤ d.toNat)
    (hd' : d.toNat ≤ (if b.toNat = 0xED then 0x9F else 0xBF)) (he : IsTail e) :
    utf8Bytes (Char.ofNat (64 * (64 * (b.toNat - 0xE0) + (d.toNat - 0x80)) + (e.toNat - 0x80))) =
      [b, d, e] := by
  obtain ⟨he, he'⟩ := he
  have hvalid : (64 * (64 * (b.toNat - 0xE0) + (d.toNat - 0x80)) + (e.toNat - 0x80)).isValidChar := by
    unfold Nat.isValidChar
    split at hd' <;> omega
  have hlong : 0x800 ≤ 64 * (64 * (b.toNat - 0xE0) + (d.toNat - 0x80)) + (e.toNat - 0x80) := by
    split at hd <;> omega
  have htail : IsTail d := by
    unfold IsTail
    split at hd <;> split at hd' <;> omega
  obtain ⟨htail, htail'⟩ := htail
  unfold utf8Bytes
  rw [toNat_ofNat_valid hvalid]
  dsimp only
  rw [if_neg (by omega), if_neg (by omega), if_pos (by omega), ofNat_eq_byte (b := b) (by omega),
    ofNat_eq_byte (b := d) (by omega), ofNat_eq_byte (b := e) (by omega)]

theorem utf8Bytes_four {b d e f : UInt8} (hlow : 0xF0 ≤ b.toNat) (hhigh : b.toNat ≤ 0xF4)
    (hd : (if b.toNat = 0xF0 then 0x90 else 0x80) ≤ d.toNat)
    (hd' : d.toNat ≤ (if b.toNat = 0xF4 then 0x8F else 0xBF)) (he : IsTail e) (hf : IsTail f) :
    utf8Bytes (Char.ofNat (64 * (64 * (64 * (b.toNat - 0xF0) + (d.toNat - 0x80)) + (e.toNat - 0x80)) +
      (f.toNat - 0x80))) = [b, d, e, f] := by
  obtain ⟨he, he'⟩ := he
  obtain ⟨hf, hf'⟩ := hf
  have htail : IsTail d := by
    unfold IsTail
    split at hd <;> split at hd' <;> omega
  obtain ⟨htail, htail'⟩ := htail
  have hlong : 0x10 ≤ 64 * (b.toNat - 0xF0) + (d.toNat - 0x80) := by split at hd <;> omega
  have hshort : 64 * (b.toNat - 0xF0) + (d.toNat - 0x80) < 0x110 := by split at hd' <;> omega
  have hvalid : (64 * (64 * (64 * (b.toNat - 0xF0) + (d.toNat - 0x80)) + (e.toNat - 0x80)) +
      (f.toNat - 0x80)).isValidChar := by
    unfold Nat.isValidChar
    omega
  unfold utf8Bytes
  rw [toNat_ofNat_valid hvalid]
  dsimp only
  rw [if_neg (by omega), if_neg (by omega), if_neg (by omega), ofNat_eq_byte (b := b) (by omega),
    ofNat_eq_byte (b := d) (by omega), ofNat_eq_byte (b := e) (by omega),
    ofNat_eq_byte (b := f) (by omega)]

section Sequences

variable {s : Sequence} {b : UInt8} {rest : Bytes} {cs : List Char} {position : Nat}

theorem start?_cases (h : Sequence.start? position b = some s) :
    (0xC2 ≤ b.toNat ∧ b.toNat ≤ 0xDF) ∨ (0xE0 ≤ b.toNat ∧ b.toNat ≤ 0xEF) ∨
      (0xF0 ≤ b.toNat ∧ b.toNat ≤ 0xF4) := by
  refine Decidable.byContradiction fun hnone => ?_
  unfold Sequence.start? at h
  simp only [Bool.and_eq_true, decide_eq_true_eq, beq_iff_eq, UInt8.le_iff_toNat_le,
    ← UInt8.toNat_inj, UInt8.reduceToNat] at h
  rw [if_neg (by omega), if_neg (by omega), if_neg (by omega), if_neg (by omega), if_neg (by omega),
    if_neg (by omega), if_neg (by omega)] at h
  cases h

theorem decode_cases (h : decodeUtf8From position (some s) rest = .ok cs) :
    ∃ b rest', rest = b :: rest' ∧ s.low.toNat ≤ b.toNat ∧ b.toNat ≤ s.high.toNat := by
  cases rest with
  | nil => cases h
  | cons b rest' =>
      rw [decodeUtf8From] at h
      split at h
      · next hbounds =>
          simp only [Bool.and_eq_true, decide_eq_true_eq, UInt8.le_iff_toNat_le] at hbounds
          exact ⟨b, rest', rfl, hbounds⟩
      · cases h

theorem cases_of_decode_push (h : decodeUtf8From position (some s) rest = .ok cs)
    (hneeded : 1 < s.needed) :
    ∃ b rest', rest = b :: rest' ∧ (s.low.toNat ≤ b.toNat ∧ b.toNat ≤ s.high.toNat) ∧
      decodeUtf8From (position + 1) (some (s.push b)) rest' = .ok cs := by
  obtain ⟨b, rest', rfl, hlow, hhigh⟩ := decode_cases h
  rw [decode_push hlow hhigh hneeded] at h
  exact ⟨b, rest', rfl, ⟨hlow, hhigh⟩, h⟩

theorem cases_of_decode_last (h : decodeUtf8From position (some s) rest = .ok cs)
    (hneeded : s.needed = 1) :
    ∃ b rest' cs', rest = b :: rest' ∧ (s.low.toNat ≤ b.toNat ∧ b.toNat ≤ s.high.toNat) ∧
      cs = Char.ofNat (s.push b).bits :: cs' ∧
      decodeUtf8From (position + 1) none rest' = .ok cs' := by
  obtain ⟨b, rest', rfl, hlow, hhigh⟩ := decode_cases h
  rw [decode_last hlow hhigh hneeded] at h
  obtain ⟨cs', hcs', h⟩ := map_eq_ok.mp h
  exact ⟨b, rest', cs', rfl, ⟨hlow, hhigh⟩, h.symm, hcs'⟩

theorem exists_utf8Bytes_of_decode (h : decodeUtf8From position none (b :: rest) = .ok cs) :
    ∃ c cs' rest' position', cs = c :: cs' ∧ b :: rest = utf8Bytes c ++ rest' ∧
      decodeUtf8From position' none rest' = .ok cs' := by
  rw [decodeUtf8From] at h
  split at h
  · next hb =>
      obtain ⟨cs', hcs', rfl⟩ := map_eq_ok.mp h
      refine ⟨_, cs', rest, position + 1, rfl, ?_, hcs'⟩
      rw [utf8Bytes_one (UInt8.lt_iff_toNat_lt.mp hb)]
      rfl
  split at h
  · cases h
  next s hs =>
  rcases start?_cases hs with ⟨hlow, hhigh⟩ | ⟨hlow, hhigh⟩ | ⟨hlow, hhigh⟩
  · cases (start?_two position hlow hhigh).symm.trans hs
    obtain ⟨d, rest, cs', rfl, hd, rfl, hrest⟩ := cases_of_decode_last h rfl
    exact ⟨_, cs', rest, _, rfl, by rw [Sequence.push, utf8Bytes_two hlow hhigh hd]; rfl, hrest⟩
  · obtain ⟨low, high, hstart, hbound, hbound'⟩ := start?_three position hlow hhigh
    cases hstart.symm.trans hs
    obtain ⟨d, rest, rfl, ⟨hd, hd'⟩, h⟩ := cases_of_decode_push h (Nat.lt_succ_self _)
    obtain ⟨e, rest, cs', rfl, he, rfl, hrest⟩ := cases_of_decode_last h rfl
    refine ⟨_, cs', rest, _, rfl, ?_, hrest⟩
    rw [Sequence.push, Sequence.push, utf8Bytes_three hlow hhigh (hbound ▸ hd) (hbound' ▸ hd') he]
    rfl
  · obtain ⟨low, high, hstart, hbound, hbound'⟩ := start?_four position hlow hhigh
    cases hstart.symm.trans hs
    obtain ⟨d, rest, rfl, ⟨hd, hd'⟩, h⟩ := cases_of_decode_push h (by simp)
    obtain ⟨e, rest, rfl, he, h⟩ := cases_of_decode_push h (Nat.lt_succ_self _)
    obtain ⟨f, rest, cs', rfl, hf, rfl, hrest⟩ := cases_of_decode_last h rfl
    refine ⟨_, cs', rest, _, rfl, ?_, hrest⟩
    rw [Sequence.push, Sequence.push, Sequence.push,
      utf8Bytes_four hlow hhigh (hbound ▸ hd) (hbound' ▸ hd') he hf]
    rfl

end Sequences

theorem utf8Bytes_ne_nil (c : Char) : utf8Bytes c ≠ [] := by
  unfold utf8Bytes
  dsimp only
  split
  · exact List.cons_ne_nil _ _
  split
  · exact List.cons_ne_nil _ _
  split <;> exact List.cons_ne_nil _ _

theorem eq_flatMap_of_decodeUtf8From {position : Nat} {bytes : Bytes} {cs : List Char}
    (h : decodeUtf8From position none bytes = .ok cs) : bytes = cs.flatMap utf8Bytes := by
  induction hlength : bytes.length using Nat.strongRecOn generalizing bytes cs position with
  | ind n ih =>
      cases bytes with
      | nil =>
          cases h
          rfl
      | cons b rest =>
          obtain ⟨c, cs', rest', position', rfl, hbytes, h⟩ := exists_utf8Bytes_of_decode h
          have hshort : rest'.length < n := by
            have := List.length_pos_iff.mpr (utf8Bytes_ne_nil c)
            rw [← hlength, hbytes, List.length_append]
            omega
          rw [hbytes, List.flatMap_cons, ← ih _ hshort h rfl]

/-! ## Charsets of one byte -/

theorem eq_map_of_decodeAsciiFrom {position : Nat} {bytes : Bytes} {cs : List Char}
    (h : decodeAsciiFrom position bytes = .ok cs) : cs = bytes.map fun b => Char.ofNat b.toNat := by
  induction bytes generalizing position cs with
  | nil =>
      cases h
      rfl
  | cons b rest ih =>
      rw [decodeAsciiFrom] at h
      split at h
      · obtain ⟨cs', hcs', rfl⟩ := map_eq_ok.mp h
        rw [List.map_cons, ← ih hcs']
      · cases h

/-! ## Charsets whose bytes are those of the characters -/

/-- The bytes of a character where nothing else is written. -/
def Charset.bytesOf : Charset → Char → Bytes
  | .latin1, c | .ascii, c => [UInt8.ofNat c.toNat]
  | _, c => utf8Bytes c

/-- A charset that writes characters byte for byte or in UTF-8, without a mark. -/
def Charset.IsPlain (charset : Charset) : Prop :=
  charset = .utf8 ∨ charset = .latin1 ∨ charset = .ascii

variable {charset : Charset} {bytes : Bytes} {cs : List Char}

theorem eq_flatMap_of_decode (hplain : charset.IsPlain) (h : charset.decode bytes = .ok cs) :
    bytes = cs.flatMap charset.bytesOf := by
  have hbyte : ∀ bytes : Bytes, bytes =
      (bytes.map fun b => Char.ofNat b.toNat).flatMap fun c => [UInt8.ofNat c.toNat] := by
    intro bytes
    rw [List.flatMap_map]
    induction bytes with
    | nil => rfl
    | cons b bytes ih =>
        have hb : b.toNat < 0x100 := b.toNat_lt
        rw [List.flatMap_cons, ← ih, toNat_ofNat_char (by omega), UInt8.ofNat_toNat]
        rfl
  obtain rfl | rfl | rfl := hplain
  · exact eq_flatMap_of_decodeUtf8From h
  · cases h
    exact hbyte bytes
  · obtain rfl := eq_map_of_decodeAsciiFrom h
    exact hbyte bytes

theorem encode_eq_flatMap (hplain : charset.IsPlain) (h : ∀ c ∈ cs, charset.Covers c) :
    charset.encode cs = .ok (cs.flatMap charset.bytesOf) := by
  obtain rfl | rfl | rfl := hplain
  · rfl
  · exact (encodeBelow_eq h).trans (congrArg _ List.map_eq_flatMap)
  · exact (encodeBelow_eq h).trans (congrArg _ List.map_eq_flatMap)

theorem width_eq_length (hplain : charset.IsPlain) {c : Char} (h : charset.Covers c) :
    charset.width c = (charset.bytesOf c).length := by
  have hencode := encode_eq_flatMap hplain (List.forall_mem_singleton.mpr h)
  rw [List.flatMap_singleton] at hencode
  rw [Charset.width, hencode]
  split
  · next hascii =>
      obtain rfl | rfl | rfl := hplain
      · rw [Charset.bytesOf, utf8Bytes, if_pos hascii]
        · rfl
        all_goals nofun
      · rfl
      · rfl
  · rfl

theorem width_pos (charset : Charset) (c : Char) : 0 < charset.width c := by
  have hutf8 := List.length_pos_iff.mpr (utf8Bytes_ne_nil c)
  rw [Charset.width]
  split
  · exact Nat.one_pos
  split
  · next bytes hbytes =>
      cases charset with
      | utf8 =>
          cases hbytes
          rwa [List.flatMap_singleton]
      | utf8Marked =>
          cases hbytes
          exact Nat.zero_lt_succ _
      | latin1 | ascii =>
          rw [Charset.encode, encodeBelow] at hbytes
          split at hbytes
          · cases hbytes
            exact Nat.one_pos
          · cases hbytes
      | utf16le | utf16be =>
          cases hbytes
          rw [List.flatMap_singleton, utf16Units]
          split <;> exact Nat.zero_lt_succ _
  · exact hutf8

theorem decode_take (hplain : charset.IsPlain) {before rest : List Char}
    (h : charset.decode bytes = .ok (before ++ rest)) :
    (before.flatMap charset.bytesOf).length ≤ bytes.length ∧
      charset.decode (bytes.take (before.flatMap charset.bytesOf).length) = .ok before := by
  have hcovers := fun c hc => covers_of_decode h c (List.mem_append_left rest hc)
  obtain ⟨written, hencode, hdecode⟩ := decode_encode hcovers
  cases (encode_eq_flatMap hplain hcovers).symm.trans hencode
  rw [eq_flatMap_of_decode hplain h, List.flatMap_append, List.take_left]
  exact ⟨by simp, hdecode⟩

end MailFilter.Text
