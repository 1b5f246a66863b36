import MailFilter.Text.Blank
import MailFilter.Text.Quoted

/-!
# Integers in text

Reading and writing decimal integers. In a text an integer may have blanks around it, a sign, and
digits of any script, with single underscores between digits. More digits than `maxDigits` are
refused either way. Every script writes its ten decimal digits on ten neighbouring code points; a few
other characters, such as superscripts, count as digits without having a decimal value.
-/

namespace MailFilter.Text

/-! ## Digits of all scripts -/

/-- The code points of the zeros of all scripts, in order. -/
def zeros : List Nat :=
  [0x30, 0x660, 0x6F0, 0x7C0, 0x966, 0x9E6, 0xA66, 0xAE6, 0xB66, 0xBE6, 0xC66, 0xCE6, 0xD66,
   0xDE6, 0xE50, 0xED0, 0xF20, 0x1040, 0x1090, 0x17E0, 0x1810, 0x1946, 0x19D0, 0x1A80, 0x1A90,
   0x1B50, 0x1BB0, 0x1C40, 0x1C50, 0xA620, 0xA8D0, 0xA900, 0xA9D0, 0xA9F0, 0xAA50, 0xABF0, 0xFF10,
   0x104A0, 0x10D30, 0x11066, 0x110F0, 0x11136, 0x111D0, 0x112F0, 0x11450, 0x114D0, 0x11650,
   0x116C0, 0x11730, 0x118E0, 0x11950, 0x11C50, 0x11D50, 0x11DA0, 0x16A60, 0x16AC0, 0x16B50,
   0x1D7CE, 0x1D7D8, 0x1D7E2, 0x1D7EC, 0x1D7F6, 0x1E140, 0x1E2F0, 0x1E950, 0x1FBF0]

/-- Ranges of the characters that are digits but not decimal digits. -/
def otherDigitRanges : List (Nat × Nat) :=
  [(0xB2, 0xB3), (0xB9, 0xB9), (0x1369, 0x1371), (0x19DA, 0x19DA), (0x2070, 0x2070),
   (0x2074, 0x2079), (0x2080, 0x2089), (0x2460, 0x2468), (0x2474, 0x247C), (0x2488, 0x2490),
   (0x24EA, 0x24EA), (0x24F5, 0x24FD), (0x24FF, 0x24FF), (0x2776, 0x277E), (0x2780, 0x2788),
   (0x278A, 0x2792), (0x10A40, 0x10A43), (0x10E60, 0x10E68), (0x11052, 0x1105A),
   (0x1F100, 0x1F10A)]

def decimalDigit? (c : Char) : Option Nat :=
  (zeros.find? fun z => z ≤ c.toNat && c.toNat ≤ z + 9).map (c.toNat - ·)

def isDigit (c : Char) : Bool :=
  (decimalDigit? c).isSome || otherDigitRanges.any fun (a, b) => a ≤ c.toNat && c.toNat ≤ b

/-! ## Integers -/

/-- The most digits that are read or written as a number. -/
def maxDigits : Nat := 4300

/-- The most characters of a text that is no integer that its error shows. -/
def maxShown : Nat := 200

/-- Why a text is not read as an integer, or an integer not written. -/
inductive IntegerFault where
  /-- The text is not an integer. -/
  | malformed (text : String)
  /-- The text has more digits than `maxDigits`. -/
  | tooLong (digits : Nat)
  /-- The integer has more digits than `maxDigits`. -/
  | tooLarge

def IntegerFault.message : IntegerFault → String
  | .malformed text =>
    "invalid literal for int() with base 10: " ++ String.ofList ((quoted text).toList.take maxShown)
  | .tooLong digits => limit ++ ": value has " ++ toString digits ++ " digits" ++ advice
  | .tooLarge => limit ++ advice
where
  /-- What the limit is. -/
  limit : String :=
    "Exceeds the limit (" ++ toString maxDigits ++ " digits) for integer string conversion"
  /-- How to lift it. -/
  advice : String := "; use sys.set_int_max_str_digits() to increase the limit"

/-- Whether a character may stand around an integer: any blank but the ASCII separators. -/
def isIntegerPadding (c : Char) : Bool :=
  isBlank c && !(0x1C ≤ c.toNat && c.toNat ≤ 0x1F)

/-- The digit values of a run of digits, in which an underscore may stand between two digits. -/
def digitValues? : List Char → Option (List Nat)
  | [] => none
  | [c] => (decimalDigit? c).map ([·])
  | c :: '_' :: rest => do return (← decimalDigit? c) :: (← digitValues? rest)
  | c :: d :: rest => do return (← decimalDigit? c) :: (← digitValues? (d :: rest))

/-- The number that digits write in base ten, the first digit leading. -/
def ofDigits (digits : List Nat) : Nat := digits.foldl (fun n d => 10 * n + d) 0

/-- The number a digit string writes, unless it is too long. -/
def natOfDigits (digits : List Nat) : Except IntegerFault Nat :=
  if digits.length > maxDigits then .error (.tooLong digits.length) else .ok (ofDigits digits)

/-- Whether a character may stand in a run of digits. -/
def isInDigits (c : Char) : Bool := c == '_' || (decimalDigit? c).isSome

/-- Reads a text that is an integer and nothing else. That there are too many digits is told before
what stands after them is looked at. -/
def readInteger (s : String) : Except IntegerFault Int := do
  let body := dropTrailing isIntegerPadding (s.toList.dropWhile isIntegerPadding)
  let (negative, body) := match body with
    | '-' :: rest => (true, rest)
    | '+' :: rest => (false, rest)
    | rest => (false, rest)
  match digitValues? (body.takeWhile isInDigits) with
  | none => .error (.malformed s)
  | some digits =>
    let n ← natOfDigits digits
    if (body.dropWhile isInDigits).isEmpty then .ok (if negative then -(n : Int) else n)
    else .error (.malformed s)

def writeInteger (n : Int) : Except IntegerFault String :=
  let digits := toString n.natAbs
  if digits.length > maxDigits then .error .tooLarge
  else .ok (if n < 0 then "-" ++ digits else digits)

end MailFilter.Text
