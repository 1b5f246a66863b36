import MailFilter.Text.Quoted

/-!
# Charsets

Text as bytes. Decoding stops at the first run of bytes that no character writes, encoding at the
first run of characters that the charset lacks; both say where the run is. Texts are sequences of
Unicode scalar values: no surrogate stands alone in them, so every character has a width.
-/

namespace MailFilter.Text

abbrev Bytes := List UInt8

/-- The charsets a script may be written in. -/
inductive Charset where
  | utf8
  /-- UTF-8 after a byte order mark, which is written always and may be missing when read. -/
  | utf8Marked
  | latin1
  | ascii
  | utf16le
  | utf16be
  deriving DecidableEq, Repr

/-- Why bytes write no character. -/
inductive DecodeReason where
  | invalidStart
  | invalidContinuation
  | unexpectedEnd
  | aboveAscii
  | truncatedUnit
  | loneHighSurrogate
  | loneLowSurrogate
  deriving DecidableEq, Repr

def DecodeReason.message : DecodeReason → String
  | .invalidStart => "invalid start byte"
  | .invalidContinuation => "invalid continuation byte"
  | .unexpectedEnd => "unexpected end of data"
  | .aboveAscii => "ordinal not in range(128)"
  | .truncatedUnit => "truncated data"
  | .loneHighSurrogate => "illegal UTF-16 surrogate"
  | .loneLowSurrogate => "illegal encoding"

/-- Where a run of bytes that write no character is, and what is wrong with it. -/
structure DecodeError where
  codec : String
  start : Nat
  run : Bytes
  reason : DecodeReason
  deriving Repr

/-- Which characters a charset lacks, and where their run starts. -/
structure EncodeError where
  codec : String
  start : Nat
  run : List Char
  /-- The first code point beyond the charset. -/
  bound : Nat
  deriving Repr

/-- Says where a run is: one item by `single`, several by the places of the first and the last. -/
private def runMessage (verb noun single : String) (start size : Nat) : String :=
  if size ≤ 1 then "can't " ++ verb ++ " " ++ noun ++ " " ++ single ++ " in position " ++ toString start
  else "can't " ++ verb ++ " " ++ noun ++ "s in position " ++ toString start ++ "-" ++
    toString (start + size - 1)

def DecodeError.message (e : DecodeError) : String :=
  "'" ++ e.codec ++ "' codec " ++
    runMessage "decode" "byte" ("0x" ++ hex 2 ((e.run.head?.map UInt8.toNat).getD 0))
      e.start e.run.length ++
    ": " ++ e.reason.message

/-- A character as an encoding error shows it: by its code point. -/
def codePointEscape (c : Char) : String :=
  if c.toNat < 0x100 then "'\\x" ++ hex 2 c.toNat ++ "'"
  else if c.toNat < 0x10000 then "'\\u" ++ hex 4 c.toNat ++ "'"
  else "'\\U" ++ hex 8 c.toNat ++ "'"

def EncodeError.message (e : EncodeError) : String :=
  "'" ++ e.codec ++ "' codec " ++
    runMessage "encode" "character" ((e.run.head?.map codePointEscape).getD "")
      e.start e.run.length ++
    ": ordinal not in range(" ++ toString e.bound ++ ")"

/-! ## UTF-8 -/

/-- A sequence that has been started: where, by which bytes, how many more it needs, the bounds of
the next one, and the bits so far. -/
structure Sequence where
  start : Nat
  seen : Bytes
  needed : Nat
  low : UInt8
  high : UInt8
  bits : Nat

/-- The sequence that a byte from `0x80` on starts. -/
def Sequence.start? (position : Nat) (b : UInt8) : Option Sequence :=
  if 0xC2 ≤ b && b ≤ 0xDF then some ⟨position, [b], 1, 0x80, 0xBF, b.toNat - 0xC0⟩
  else if b == 0xE0 then some ⟨position, [b], 2, 0xA0, 0xBF, 0⟩
  else if b == 0xED then some ⟨position, [b], 2, 0x80, 0x9F, 0xD⟩
  else if 0xE1 ≤ b && b ≤ 0xEF then some ⟨position, [b], 2, 0x80, 0xBF, b.toNat - 0xE0⟩
  else if b == 0xF0 then some ⟨position, [b], 3, 0x90, 0xBF, 0⟩
  else if 0xF1 ≤ b && b ≤ 0xF3 then some ⟨position, [b], 3, 0x80, 0xBF, b.toNat - 0xF0⟩
  else if b == 0xF4 then some ⟨position, [b], 3, 0x80, 0x8F, 4⟩
  else none

def Sequence.push (s : Sequence) (b : UInt8) : Sequence :=
  { s with
    seen := s.seen ++ [b], needed := s.needed - 1, low := 0x80, high := 0xBF,
    bits := 64 * s.bits + (b.toNat - 0x80) }

/-- Decodes UTF-8 from a byte position on, with or without a sequence under way. -/
def decodeUtf8From (position : Nat) : Option Sequence → Bytes → Except DecodeError (List Char)
  | none, [] => .ok []
  | some s, [] => .error ⟨"utf-8", s.start, s.seen, .unexpectedEnd⟩
  | none, b :: rest =>
    if b < 0x80 then (decodeUtf8From (position + 1) none rest).map (Char.ofNat b.toNat :: ·)
    else match Sequence.start? position b with
      | none => .error ⟨"utf-8", position, [b], .invalidStart⟩
      | some s => decodeUtf8From (position + 1) (some s) rest
  | some s, b :: rest =>
    if s.low ≤ b && b ≤ s.high then
      let s' := s.push b
      if s'.needed == 0 then
        (decodeUtf8From (position + 1) none rest).map (Char.ofNat s'.bits :: ·)
      else decodeUtf8From (position + 1) (some s') rest
    else .error ⟨"utf-8", s.start, s.seen, .invalidContinuation⟩

def unknownCharset (name : String) : String := "unknown encoding: " ++ name

def utf8Bytes (c : Char) : Bytes :=
  let n := c.toNat
  let tail (unit : Nat) : UInt8 := UInt8.ofNat (0x80 + n / unit % 64)
  if n < 0x80 then [UInt8.ofNat n]
  else if n < 0x800 then [UInt8.ofNat (0xC0 + n / 64), tail 1]
  else if n < 0x10000 then [UInt8.ofNat (0xE0 + n / 4096), tail 64, tail 1]
  else [UInt8.ofNat (0xF0 + n / 262144), tail 4096, tail 64, tail 1]

def byteOrderMark : Bytes := [0xEF, 0xBB, 0xBF]

def dropMark : Bytes → Bytes
  | 0xEF :: 0xBB :: 0xBF :: rest => rest
  | bytes => bytes

/-! ## Charsets of one byte -/

def decodeAsciiFrom (position : Nat) : Bytes → Except DecodeError (List Char)
  | [] => .ok []
  | b :: rest =>
    if b < 0x80 then (decodeAsciiFrom (position + 1) rest).map (Char.ofNat b.toNat :: ·)
    else .error ⟨"ascii", position, [b], .aboveAscii⟩

/-- Encodes characters below a bound as one byte each, from a character position on. -/
def encodeBelow (codec : String) (bound : Nat) (position : Nat) :
    List Char → Except EncodeError Bytes
  | [] => .ok []
  | c :: cs =>
    if c.toNat < bound then
      (encodeBelow codec bound (position + 1) cs).map (UInt8.ofNat c.toNat :: ·)
    else .error ⟨codec, position, c :: cs.takeWhile (bound ≤ ·.toNat), bound⟩

/-! ## UTF-16 -/

/-- Decodes UTF-16 from a byte position on; `unit` joins the two bytes of a unit. -/
def decodeUtf16From (codec : String) (unit : UInt8 → UInt8 → Nat) (position : Nat) :
    Bytes → Except DecodeError (List Char)
  | [] => .ok []
  | [a] => .error ⟨codec, position, [a], .truncatedUnit⟩
  | a :: b :: rest =>
    let u := unit a b
    if u < 0xD800 || 0xE000 ≤ u then
      (decodeUtf16From codec unit (position + 2) rest).map (Char.ofNat u :: ·)
    else if 0xDC00 ≤ u then .error ⟨codec, position, [a, b], .loneLowSurrogate⟩
    else match rest with
      | [] => .error ⟨codec, position, [a, b], .unexpectedEnd⟩
      | [c] => .error ⟨codec, position, [a, b, c], .unexpectedEnd⟩
      | c :: d :: rest =>
        let v := unit c d
        if 0xDC00 ≤ v && v < 0xE000 then
          (decodeUtf16From codec unit (position + 4) rest).map
            (Char.ofNat (0x10000 + (u - 0xD800) * 0x400 + (v - 0xDC00)) :: ·)
        else .error ⟨codec, position, [a, b], .loneHighSurrogate⟩

def littleUnit (a b : UInt8) : Nat := a.toNat + 256 * b.toNat

def bigUnit (a b : UInt8) : Nat := 256 * a.toNat + b.toNat

def utf16Units (c : Char) : List Nat :=
  let n := c.toNat
  if n < 0x10000 then [n]
  else [0xD800 + (n - 0x10000) / 0x400, 0xDC00 + (n - 0x10000) % 0x400]

/-! ## All charsets -/

def Charset.decode : Charset → Bytes → Except DecodeError (List Char)
  | .utf8, bytes => decodeUtf8From 0 none bytes
  | .utf8Marked, bytes => decodeUtf8From 0 none (dropMark bytes)
  | .latin1, bytes => .ok (bytes.map fun b => Char.ofNat b.toNat)
  | .ascii, bytes => decodeAsciiFrom 0 bytes
  | .utf16le, bytes => decodeUtf16From "utf-16-le" littleUnit 0 bytes
  | .utf16be, bytes => decodeUtf16From "utf-16-be" bigUnit 0 bytes

def Charset.encode : Charset → List Char → Except EncodeError Bytes
  | .utf8, cs => .ok (cs.flatMap utf8Bytes)
  | .utf8Marked, cs => .ok (byteOrderMark ++ cs.flatMap utf8Bytes)
  | .latin1, cs => encodeBelow "latin-1" 0x100 0 cs
  | .ascii, cs => encodeBelow "ascii" 0x80 0 cs
  | .utf16le, cs =>
    .ok (cs.flatMap fun c => (utf16Units c).flatMap fun u => [UInt8.ofNat u, UInt8.ofNat (u / 256)])
  | .utf16be, cs =>
    .ok (cs.flatMap fun c => (utf16Units c).flatMap fun u => [UInt8.ofNat (u / 256), UInt8.ofNat u])

/-- How many bytes a character takes: one for ASCII, else the bytes of its encoding on its own, or
of UTF-8 where the charset lacks the character. -/
def Charset.width (charset : Charset) (c : Char) : Nat :=
  if c.toNat < 0x80 then 1
  else match charset.encode [c] with
    | .ok bytes => bytes.length
    | .error _ => (utf8Bytes c).length

/-! ## Names -/

/-- A charset name in one spelling: letters in lower case, and one underscore for every run of
characters that are neither letters, digits nor dots, unless the run opens or closes the name. -/
def charsetKey (name : String) : String :=
  let (key, _) := name.toList.foldl
    (fun (key, gap) c =>
      if c.isAlphanum || c == '.' then
        (key ++ (if gap && !key.isEmpty then ['_', c.toLower] else [c.toLower]), false)
      else (key, true))
    (([] : List Char), false)
  String.ofList key

def charsetKeys : List (Charset × List String) :=
  [(.utf8, ["utf_8", "utf8", "u8", "utf", "utf8_ucs2", "utf8_ucs4", "cp65001"]),
   (.utf8Marked, ["utf_8_sig"]),
   (.latin1, ["latin_1", "8859", "cp819", "csisolatin1", "ibm819", "iso8859", "iso8859_1",
     "iso_8859_1", "iso_8859_1_1987", "iso_ir_100", "l1", "latin", "latin1"]),
   (.ascii, ["ascii", "646", "ansi_x3.4_1968", "ansi_x3_4_1968", "ansi_x3.4_1986", "cp367",
     "csascii", "ibm367", "iso646_us", "iso_646.irv_1991", "iso_ir_6", "us", "us_ascii"]),
   (.utf16le, ["utf_16_le", "unicodelittleunmarked", "utf_16le"]),
   (.utf16be, ["utf_16_be", "unicodebigunmarked", "utf_16be"])]

def Charset.ofName? (name : String) : Option Charset :=
  (charsetKeys.find? fun (_, keys) => keys.contains (charsetKey name)).map (·.1)

end MailFilter.Text
