import MailFilter.Proofs.Text.Lowering
import MailFilter.Text.Charset

/-!
# Charsets round trip

Every text made of characters that a charset has is written in it, and read back from its bytes as
the same text.  What bytes are read as is made of such characters.
-/

namespace MailFilter.Text

/-- The charset has the character. -/
def Charset.Covers : Charset → Char → Prop
  | .latin1, c => c.toNat < 0x100
  | .ascii, c => c.toNat < 0x80
  | _, _ => True

theorem Charset.covers_of_ascii (charset : Charset) {c : Char} (h : c.toNat < 0x80) :
    charset.Covers c := by
  cases charset with
  | latin1 => exact Nat.lt_trans h (by decide)
  | ascii => exact h
  | utf8 | utf8Marked | utf16le | utf16be => trivial

theorem ofName?_utf8 : Charset.ofName? "utf-8" = some .utf8 := by decide +kernel

private theorem toNat_ofNat_byte {n : Nat} (h : n < 0x100) : (UInt8.ofNat n).toNat = n := by
  rw [UInt8.toNat_ofNat']
  exact Nat.mod_eq_of_lt h

private theorem low_le {b : UInt8} (h : 0x80 ≤ b.toNat) : (0x80 : UInt8).toNat ≤ b.toNat := h

private theorem le_high {b : UInt8} (h : b.toNat ≤ 0xBF) : b.toNat ≤ (0xBF : UInt8).toNat := h

/-! ## UTF-8 -/

section Utf8

variable {s : Sequence} {b : UInt8} {rest : Bytes}

theorem start?_two (position : Nat) (hlow : 0xC2 ≤ b.toNat) (hhigh : b.toNat ≤ 0xDF) :
    Sequence.start? position b = some ⟨position, [b], 1, 0x80, 0xBF, b.toNat - 0xC0⟩ := by
  unfold Sequence.start?
  rw [if_pos]
  simpa [UInt8.le_iff_toNat_le] using ⟨hlow, hhigh⟩

theorem start?_three (position : Nat) (hlow : 0xE0 ≤ b.toNat) (hhigh : b.toNat ≤ 0xEF) :
    ∃ low high : UInt8, Sequence.start? position b =
        some ⟨position, [b], 2, low, high, b.toNat - 0xE0⟩ ∧
      low.toNat = (if b.toNat = 0xE0 then 0xA0 else 0x80) ∧
      high.toNat = (if b.toNat = 0xED then 0x9F else 0xBF) := by
  unfold Sequence.start?
  simp only [Bool.and_eq_true, decide_eq_true_eq, beq_iff_eq, UInt8.le_iff_toNat_le,
    ← UInt8.toNat_inj, UInt8.reduceToNat]
  rw [if_neg (by omega)]
  by_cases hfirst : b.toNat = 0xE0
  · rw [if_pos hfirst, if_pos hfirst, if_neg (by omega)]
    exact ⟨0xA0, 0xBF, by rw [hfirst], rfl, rfl⟩
  rw [if_neg hfirst, if_neg hfirst]
  by_cases hsurrogate : b.toNat = 0xED
  · rw [if_pos hsurrogate, if_pos hsurrogate]
    exact ⟨0x80, 0x9F, by rw [hsurrogate], rfl, rfl⟩
  · rw [if_neg hsurrogate, if_neg hsurrogate, if_pos (by omega)]
    exact ⟨0x80, 0xBF, rfl, rfl, rfl⟩

theorem start?_four (position : Nat) (hlow : 0xF0 ≤ b.toNat) (hhigh : b.toNat ≤ 0xF4) :
    ∃ low high : UInt8, Sequence.start? position b =
        some ⟨position, [b], 3, low, high, b.toNat - 0xF0⟩ ∧
      low.toNat = (if b.toNat = 0xF0 then 0x90 else 0x80) ∧
      high.toNat = (if b.toNat = 0xF4 then 0x8F else 0xBF) := by
  unfold Sequence.start?
  simp only [Bool.and_eq_true, decide_eq_true_eq, beq_iff_eq, UInt8.le_iff_toNat_le,
    ← UInt8.toNat_inj, UInt8.reduceToNat]
  rw [if_neg (by omega), if_neg (by omega), if_neg (by omega), if_neg (by omega)]
  by_cases hfirst : b.toNat = 0xF0
  · rw [if_pos hfirst, if_pos hfirst, if_neg (by omega)]
    exact ⟨0x90, 0xBF, by rw [hfirst], rfl, rfl⟩
  rw [if_neg hfirst, if_neg hfirst]
  by_cases hlast : b.toNat = 0xF4
  · rw [if_neg (by omega), if_pos hlast, if_pos hlast]
    exact ⟨0x80, 0x8F, by rw [hlast], rfl, rfl⟩
  · rw [if_pos (by omega), if_neg hlast]
    exact ⟨0x80, 0xBF, rfl, rfl, rfl⟩

theorem decode_start {position : Nat} (hb : 0x80 ≤ b.toNat) (hs : Sequence.start? position b = some s) :
    decodeUtf8From position none (b :: rest) = decodeUtf8From (position + 1) (some s) rest := by
  rw [decodeUtf8From, if_neg, hs]
  rw [UInt8.lt_iff_toNat_lt]
  exact Nat.not_lt.mpr hb

theorem decode_push {position : Nat} (hlow : s.low.toNat ≤ b.toNat) (hhigh : b.toNat ≤ s.high.toNat)
    (hneeded : 1 < s.needed) :
    decodeUtf8From position (some s) (b :: rest) =
      decodeUtf8From (position + 1) (some (s.push b)) rest := by
  rw [decodeUtf8From, if_pos (by simpa [UInt8.le_iff_toNat_le] using ⟨hlow, hhigh⟩)]
  have hmore : ((s.push b).needed == 0) = false := by
    rw [Sequence.push, beq_eq_false_iff_ne]
    dsimp only
    omega
  simp only [hmore, Bool.false_eq_true, if_false]

theorem decode_last {position : Nat} (hlow : s.low.toNat ≤ b.toNat) (hhigh : b.toNat ≤ s.high.toNat)
    (hneeded : s.needed = 1) :
    decodeUtf8From position (some s) (b :: rest) =
      (decodeUtf8From (position + 1) none rest).map (Char.ofNat (s.push b).bits :: ·) := by
  rw [decodeUtf8From, if_pos (by simpa [UInt8.le_iff_toNat_le] using ⟨hlow, hhigh⟩)]
  have hdone : ((s.push b).needed == 0) = true := by
    rw [Sequence.push, beq_iff_eq]
    dsimp only
    omega
  simp only [hdone, if_true]

end Utf8

/-- The bytes of a character are read as that character. -/
theorem decodeUtf8From_utf8Bytes (position : Nat) (c : Char) (rest : Bytes) :
    ∃ position', decodeUtf8From position none (utf8Bytes c ++ rest) =
      (decodeUtf8From position' none rest).map (c :: ·) := by
  have hvalid : c.toNat < 0xD800 ∨ 0xDFFF < c.toNat ∧ c.toNat < 0x110000 := c.valid
  have hchar : c = Char.ofNat c.toNat := (Char.ofNat_toNat c).symm
  unfold utf8Bytes
  generalize c.toNat = n at hvalid hchar
  subst hchar
  dsimp only
  -- One case for each number of bytes; the first byte tells the bounds of the second.
  split
  · next hone =>
      have hbyte := toNat_ofNat_byte (n := n) (by omega)
      refine ⟨position + 1, ?_⟩
      rw [List.singleton_append, decodeUtf8From, if_pos, hbyte]
      rw [UInt8.lt_iff_toNat_lt, hbyte]
      exact hone
  next hone =>
  split
  · next htwo =>
      have hlead := toNat_ofNat_byte (n := 0xC0 + n / 64) (by omega)
      have htail := toNat_ofNat_byte (n := 0x80 + n / 1 % 64) (by omega)
      refine ⟨position + 1 + 1, ?_⟩
      rw [List.cons_append, decode_start (by omega) (start?_two position (by omega) (by omega)),
        List.singleton_append,
        decode_last (low_le (by omega)) (le_high (by omega)) rfl]
      rw [Sequence.push, hlead, htail]
      dsimp only
      rw [show 64 * (192 + n / 64 - 192) + (128 + n / 1 % 64 - 128) = n by omega]
  next htwo =>
  split
  · next hthree =>
      have hlead := toNat_ofNat_byte (n := 0xE0 + n / 4096) (by omega)
      have hnext := toNat_ofNat_byte (n := 0x80 + n / 64 % 64) (by omega)
      have htail := toNat_ofNat_byte (n := 0x80 + n / 1 % 64) (by omega)
      obtain ⟨low, high, hstart, hlow, hhigh⟩ :=
        start?_three position (b := UInt8.ofNat (0xE0 + n / 4096)) (by omega) (by omega)
      rw [hlead] at hlow hhigh
      refine ⟨position + 1 + 1 + 1, ?_⟩
      rw [List.cons_append, decode_start (by omega) hstart, List.cons_append,
        decode_push (by dsimp only; split at hlow <;> omega) (by dsimp only; split at hhigh <;> omega)
          (by dsimp only; omega),
        List.singleton_append, decode_last (low_le (by omega)) (le_high (by omega)) rfl]
      simp only [Sequence.push, hlead, hnext, htail]
      rw [show 64 * (64 * (224 + n / 4096 - 224) + (128 + n / 64 % 64 - 128)) +
        (128 + n / 1 % 64 - 128) = n by omega]
  next hthree =>
      have hlead := toNat_ofNat_byte (n := 0xF0 + n / 262144) (by omega)
      have hnext := toNat_ofNat_byte (n := 0x80 + n / 4096 % 64) (by omega)
      have hthird := toNat_ofNat_byte (n := 0x80 + n / 64 % 64) (by omega)
      have htail := toNat_ofNat_byte (n := 0x80 + n / 1 % 64) (by omega)
      obtain ⟨low, high, hstart, hlow, hhigh⟩ :=
        start?_four position (b := UInt8.ofNat (0xF0 + n / 262144)) (by omega) (by omega)
      rw [hlead] at hlow hhigh
      refine ⟨position + 1 + 1 + 1 + 1, ?_⟩
      rw [List.cons_append, decode_start (by omega) hstart, List.cons_append,
        decode_push (by dsimp only; split at hlow <;> omega) (by dsimp only; split at hhigh <;> omega)
          (by dsimp only; omega),
        List.cons_append, decode_push (low_le (by omega)) (le_high (by omega))
          (by rw [Sequence.push]; dsimp only; omega),
        List.singleton_append, decode_last (low_le (by omega)) (le_high (by omega)) rfl]
      simp only [Sequence.push, hlead, hnext, hthird, htail]
      rw [show 64 * (64 * (64 * (240 + n / 262144 - 240) + (128 + n / 4096 % 64 - 128)) +
        (128 + n / 64 % 64 - 128)) + (128 + n / 1 % 64 - 128) = n by omega]

theorem decodeUtf8From_flatMap (position : Nat) (cs : List Char) :
    decodeUtf8From position none (cs.flatMap utf8Bytes) = .ok cs := by
  induction cs generalizing position with
  | nil => rfl
  | cons c cs ih =>
      obtain ⟨position', hstep⟩ := decodeUtf8From_utf8Bytes position c (cs.flatMap utf8Bytes)
      rw [List.flatMap_cons, hstep, ih]
      rfl

/-! ## Charsets of one byte -/

theorem toNat_ofNat_valid {n : Nat} (h : n.isValidChar) : (Char.ofNat n).toNat = n := by
  rw [Char.ofNat, dif_pos h]
  rfl

theorem toNat_ofNat_char {n : Nat} (h : n < 0xD800) : (Char.ofNat n).toNat = n :=
  toNat_ofNat_valid (.inl h)

theorem encodeBelow_eq {codec : String} {bound position : Nat} {cs : List Char}
    (h : ∀ c ∈ cs, c.toNat < bound) :
    encodeBelow codec bound position cs = .ok (cs.map fun c => UInt8.ofNat c.toNat) := by
  induction cs generalizing position with
  | nil => rfl
  | cons c cs ih =>
      obtain ⟨hc, hcs⟩ := List.forall_mem_cons.mp h
      rw [encodeBelow, if_pos hc, ih hcs]
      rfl

theorem ofNat_toNat_byte {c : Char} (h : c.toNat < 0x100) :
    Char.ofNat (UInt8.ofNat c.toNat).toNat = c := by
  rw [toNat_ofNat_byte h, Char.ofNat_toNat]

theorem decodeAsciiFrom_map (position : Nat) {cs : List Char} (h : ∀ c ∈ cs, c.toNat < 0x80) :
    decodeAsciiFrom position (cs.map fun c => UInt8.ofNat c.toNat) = .ok cs := by
  induction cs generalizing position with
  | nil => rfl
  | cons c cs ih =>
      obtain ⟨hc, hcs⟩ := List.forall_mem_cons.mp h
      have hbyte := toNat_ofNat_byte (n := c.toNat) (by omega)
      rw [List.map_cons, decodeAsciiFrom, if_pos, ih _ hcs, ofNat_toNat_byte (by omega)]
      · rfl
      · rw [UInt8.lt_iff_toNat_lt, hbyte]
        exact hc

theorem lt_of_decodeAsciiFrom {position : Nat} {bytes : Bytes} {cs : List Char}
    (h : decodeAsciiFrom position bytes = .ok cs) : ∀ c ∈ cs, c.toNat < 0x80 := by
  induction bytes generalizing position cs with
  | nil =>
      cases h
      exact List.forall_mem_nil _
  | cons b rest ih =>
      rw [decodeAsciiFrom] at h
      split at h
      · next hb =>
          have hlow : b.toNat < 0x80 := UInt8.lt_iff_toNat_lt.mp hb
          cases hrest : decodeAsciiFrom (position + 1) rest with
          | error e =>
              rw [hrest] at h
              cases h
          | ok cs' =>
              rw [hrest] at h
              cases h
              refine List.forall_mem_cons.mpr ⟨?_, ih hrest⟩
              rw [toNat_ofNat_char (by omega)]
              exact hlow
      · cases h

/-! ## UTF-16 -/

section Utf16

variable {unit : UInt8 → UInt8 → Nat} {first second : Nat → UInt8}

theorem decodeUtf16From_units (codec : String)
    (hunit : ∀ u < 0x10000, unit (first u) (second u) = u) (position : Nat) (c : Char)
    (rest : Bytes) :
    ∃ position', decodeUtf16From codec unit position
        ((utf16Units c).flatMap (fun u => [first u, second u]) ++ rest) =
      (decodeUtf16From codec unit position' rest).map (c :: ·) := by
  have hvalid : c.toNat < 0xD800 ∨ 0xDFFF < c.toNat ∧ c.toNat < 0x110000 := c.valid
  have hchar : c = Char.ofNat c.toNat := (Char.ofNat_toNat c).symm
  unfold utf16Units
  generalize c.toNat = n at hvalid hchar
  subst hchar
  dsimp only
  split
  · next hone =>
      refine ⟨position + 2, ?_⟩
      change decodeUtf16From codec unit position (first n :: second n :: rest) = _
      rw [decodeUtf16From.eq_def]
      dsimp only
      rw [hunit n hone, if_pos]
      rw [Bool.or_eq_true, decide_eq_true_iff, decide_eq_true_iff]
      omega
  · next htwo =>
      have hhigh := hunit (0xD800 + (n - 0x10000) / 0x400) (by omega)
      have hlow := hunit (0xDC00 + (n - 0x10000) % 0x400) (by omega)
      refine ⟨position + 4, ?_⟩
      change decodeUtf16From codec unit position
        (first (0xD800 + (n - 0x10000) / 0x400) :: second (0xD800 + (n - 0x10000) / 0x400) ::
          first (0xDC00 + (n - 0x10000) % 0x400) :: second (0xDC00 + (n - 0x10000) % 0x400) ::
            rest) = _
      rw [decodeUtf16From.eq_def]
      dsimp only
      rw [hhigh, if_neg, if_neg (by omega)]
      · rw [hlow, if_pos]
        · rw [show 65536 + (55296 + (n - 65536) / 1024 - 55296) * 1024 +
            (56320 + (n - 65536) % 1024 - 56320) = n by omega]
        · rw [Bool.and_eq_true, decide_eq_true_iff, decide_eq_true_iff]
          omega
      · rw [Bool.or_eq_true, decide_eq_true_iff, decide_eq_true_iff]
        omega

theorem decodeUtf16From_flatMap (codec : String)
    (hunit : ∀ u < 0x10000, unit (first u) (second u) = u) (position : Nat) (cs : List Char) :
    decodeUtf16From codec unit position
      (cs.flatMap fun c => (utf16Units c).flatMap fun u => [first u, second u]) = .ok cs := by
  induction cs generalizing position with
  | nil => rfl
  | cons c cs ih =>
      obtain ⟨position', hstep⟩ := decodeUtf16From_units codec hunit position c
        (cs.flatMap fun c => (utf16Units c).flatMap fun u => [first u, second u])
      rw [List.flatMap_cons, hstep, ih]
      rfl

end Utf16

theorem littleUnit_ofNat (u : Nat) (h : u < 0x10000) :
    littleUnit (UInt8.ofNat u) (UInt8.ofNat (u / 256)) = u := by
  simp only [littleUnit, UInt8.toNat_ofNat']
  omega

theorem bigUnit_ofNat (u : Nat) (h : u < 0x10000) :
    bigUnit (UInt8.ofNat (u / 256)) (UInt8.ofNat u) = u := by
  simp only [bigUnit, UInt8.toNat_ofNat']
  omega

/-! ## All charsets -/

theorem dropMark_byteOrderMark (bytes : Bytes) : dropMark (byteOrderMark ++ bytes) = bytes := rfl

/-- A text of characters that the charset has is written, and read back from its bytes. -/
theorem decode_encode {charset : Charset} {cs : List Char} (h : ∀ c ∈ cs, charset.Covers c) :
    ∃ bytes, charset.encode cs = .ok bytes ∧ charset.decode bytes = .ok cs := by
  cases charset with
  | utf8 => exact ⟨_, rfl, decodeUtf8From_flatMap 0 cs⟩
  | utf8Marked =>
      refine ⟨_, rfl, ?_⟩
      rw [Charset.decode, dropMark_byteOrderMark]
      exact decodeUtf8From_flatMap 0 cs
  | latin1 =>
      refine ⟨_, encodeBelow_eq h, ?_⟩
      rw [Charset.decode, List.map_map]
      exact congrArg Except.ok
        ((List.map_congr_left fun c hc => ofNat_toNat_byte (h c hc)).trans (List.map_id cs))
  | ascii => exact ⟨_, encodeBelow_eq h, decodeAsciiFrom_map 0 h⟩
  | utf16le => exact ⟨_, rfl, decodeUtf16From_flatMap _ littleUnit_ofNat 0 cs⟩
  | utf16be => exact ⟨_, rfl, decodeUtf16From_flatMap _ bigUnit_ofNat 0 cs⟩

theorem covers_of_decode {charset : Charset} {bytes : Bytes} {cs : List Char}
    (h : charset.decode bytes = .ok cs) : ∀ c ∈ cs, charset.Covers c := by
  cases charset with
  | latin1 =>
      cases h
      intro c hc
      obtain ⟨b, -, rfl⟩ := List.mem_map.mp hc
      have hb : b.toNat < 0x100 := b.toNat_lt
      rw [Charset.Covers, toNat_ofNat_char (by omega)]
      exact hb
  | ascii => exact lt_of_decodeAsciiFrom h
  | utf8 | utf8Marked | utf16le | utf16be => exact fun _ _ => trivial

/-! ## Lower case -/

/-- Whether the lower case form of a character stays below a bound. -/
def staysBelow (bound n : Nat) : Bool := (lowerChar (Char.ofNat n)).all (·.toNat < bound)

theorem staysBelow_ascii : (List.range 0x80).all (staysBelow 0x80) = true := by decide +kernel

theorem staysBelow_latin : (List.range 0x100).all (staysBelow 0x100) = true := by decide +kernel

theorem lt_of_mem_lowerWithin {before after : List Char} {c d : Char} {bound : Nat}
    (hbound : bound = 0x80 ∨ bound = 0x100) (hc : c.toNat < bound)
    (hd : d ∈ lowerWithin before c after) : d.toNat < bound := by
  have hsigma : ('Σ').toNat = 0x3A3 := rfl
  have hne : (c == 'Σ') = false := by
    rw [beq_eq_false_iff_ne]
    rintro rfl
    omega
  have hstays : staysBelow bound c.toNat = true := by
    obtain rfl | rfl := hbound
    · exact List.all_eq_true.1 staysBelow_ascii _ (List.mem_range.mpr hc)
    · exact List.all_eq_true.1 staysBelow_latin _ (List.mem_range.mpr hc)
  rw [staysBelow, Char.ofNat_toNat] at hstays
  rw [lowerWithin, hne] at hd
  exact of_decide_eq_true (List.all_eq_true.1 hstays d hd)

theorem lt_of_mem_lower {s : String} {bound : Nat} (hbound : bound = 0x80 ∨ bound = 0x100)
    (h : ∀ c ∈ s.toList, c.toNat < bound) : ∀ d ∈ (lower s).toList, d.toNat < bound := by
  have hafter : ∀ (cs before : List Char), (∀ c ∈ cs, c.toNat < bound) →
      ∀ d ∈ lowerAfter before cs, d.toNat < bound := by
    intro cs
    induction cs with
    | nil => exact fun _ _ => List.forall_mem_nil _
    | cons c cs ih =>
        intro before hcs d hd
        obtain ⟨hc, hcs⟩ := List.forall_mem_cons.mp hcs
        rw [lowerAfter_cons, List.mem_append] at hd
        rcases hd with hd | hd
        · exact lt_of_mem_lowerWithin hbound hc hd
        · exact ih _ hcs d hd
  rw [toList_lower]
  exact hafter _ _ h

theorem Charset.covers_lower {charset : Charset} {s : String} (h : ∀ c ∈ s.toList, charset.Covers c) :
    ∀ d ∈ (lower s).toList, charset.Covers d := by
  cases charset with
  | latin1 => exact lt_of_mem_lower (.inr rfl) h
  | ascii => exact lt_of_mem_lower (.inl rfl) h
  | utf8 | utf8Marked | utf16le | utf16be => exact fun _ _ => trivial

end MailFilter.Text
