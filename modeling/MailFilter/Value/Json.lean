import MailFilter.Text.Charset
import MailFilter.Value.Basic

/-!
# JSON

Data values as JSON text. Written text is ASCII: every other character is escaped by its UTF-16
units. Reading accepts the numbers `NaN`, `Infinity` and `-Infinity` too, and of two fields of one
name keeps the later value.
-/

namespace MailFilter.Value

/-! ## Writing -/

def jsonChar (c : Char) : List Char :=
  if c == '"' then ['\\', '"']
  else if c == '\\' then ['\\', '\\']
  else if c == '\n' then ['\\', 'n']
  else if c == '\r' then ['\\', 'r']
  else if c == '\t' then ['\\', 't']
  else if c.toNat == 0x8 then ['\\', 'b']
  else if c.toNat == 0xC then ['\\', 'f']
  else if 0x20 ≤ c.toNat && c.toNat < 0x80 then [c]
  else (Text.utf16Units c).flatMap fun u => '\\' :: 'u' :: Text.hexDigits 4 u

def jsonString (s : String) : String :=
  String.ofList ('"' :: s.toList.flatMap jsonChar ++ ['"'])

def jsonFloat : Binary64 → String
  | .undefined => "NaN"
  | .infinite negative => if negative then "-Infinity" else "Infinity"
  | x => x.text

mutual

def json : Value → String
  | null => "null"
  | bool b => if b then "true" else "false"
  | int n => toString n
  | float x => jsonFloat x
  | text s => jsonString s
  | list items => "[" ++ ",".intercalate (jsonItems items) ++ "]"
  | record fields => "\x7b" ++ ",".intercalate (jsonFields fields) ++ "\x7d"

def jsonItems : List Value → List String
  | [] => []
  | v :: vs => v.json :: jsonItems vs

def jsonFields : List (String × Value) → List String
  | [] => []
  | (name, v) :: fs => (jsonString name ++ ":" ++ v.json) :: jsonFields fs

end

/-- Lines between an opening and a closing bracket, indented by two spaces per level. -/
private def bracketed (opening closing : String) (level : Nat) (lines : List String) : String :=
  if lines.isEmpty then opening ++ closing
  else
    let indent (n : Nat) : String := "".pushn ' ' (2 * n)
    opening ++ "\n" ++ ",\n".intercalate (lines.map (indent (level + 1) ++ ·)) ++ "\n" ++
      indent level ++ closing

mutual

/-- JSON text with one item or field a line, at a level of nesting. -/
def jsonLines (level : Nat) : Value → String
  | list items => bracketed "[" "]" level (jsonLinesItems (level + 1) items)
  | record fields => bracketed "\x7b" "\x7d" level (jsonLinesFields (level + 1) fields)
  | v => v.json

def jsonLinesItems (level : Nat) : List Value → List String
  | [] => []
  | v :: vs => v.jsonLines level :: jsonLinesItems level vs

def jsonLinesFields (level : Nat) : List (String × Value) → List String
  | [] => []
  | (name, v) :: fs => (jsonString name ++ ": " ++ v.jsonLines level) :: jsonLinesFields level fs

end

/-! ## Reading -/

/-- Why a text is not read as JSON. -/
inductive JsonFault where
  /-- The text is not JSON. -/
  | malformed
  /-- An integer with too many digits. -/
  | integer (fault : Text.IntegerFault)

def skipJsonSpace (cs : List Char) : List Char :=
  cs.dropWhile fun c => c == ' ' || c == '\t' || c == '\n' || c == '\r'

def readUnit : List Char → Option (Nat × List Char)
  | a :: b :: c :: d :: rest => (Text.hexNumber? [a, b, c, d]).map (·, rest)
  | _ => none

/-- The second unit of a surrogate pair, if one is written next. -/
def readLowSurrogate : List Char → Option (Nat × List Char)
  | '\\' :: 'u' :: rest =>
    (readUnit rest).filter fun (u, _) => 0xDC00 ≤ u && u < 0xE000
  | _ => none

/-- What an escape of one letter means. -/
def escapedChar? : Char → Option Char
  | '"' => some '"'
  | '\\' => some '\\'
  | '/' => some '/'
  | 'b' => some '\x08'
  | 'f' => some '\x0c'
  | 'n' => some '\n'
  | 'r' => some '\r'
  | 't' => some '\t'
  | _ => none

/-- The rest of a string after its opening quote. Surrogates that are no pair read as U+FFFD. -/
def readStringTail : Nat → List Char → Except JsonFault (List Char × List Char)
  | 0, _ => .error .malformed
  | _, [] => .error .malformed
  | _ + 1, '"' :: rest => .ok ([], rest)
  | fuel + 1, '\\' :: 'u' :: rest =>
    match readUnit rest with
    | none => .error .malformed
    | some (u, rest) =>
      let (c, rest) :=
        if 0xD800 ≤ u && u < 0xDC00 then
          match readLowSurrogate rest with
          | some (v, rest) => (Char.ofNat (0x10000 + (u - 0xD800) * 0x400 + (v - 0xDC00)), rest)
          | none => ('\ufffd', rest)
        else if 0xDC00 ≤ u && u < 0xE000 then ('\ufffd', rest)
        else (Char.ofNat u, rest)
      (readStringTail fuel rest).map fun (cs, rest) => (c :: cs, rest)
  | fuel + 1, '\\' :: e :: rest =>
    match escapedChar? e with
    | none => .error .malformed
    | some c => (readStringTail fuel rest).map fun (cs, rest) => (c :: cs, rest)
  | fuel + 1, c :: rest =>
    if c.toNat < 0x20 || c == '\\' then .error .malformed
    else (readStringTail fuel rest).map fun (cs, rest) => (c :: cs, rest)

/-- An exponent after a number, with its sign, if one is written. -/
def readExponent (cs : List Char) : Option (Int × List Char) :=
  match cs with
  | e :: rest =>
    if e == 'e' || e == 'E' then
      let (negative, rest) := match rest with
        | '-' :: rest => (true, rest)
        | '+' :: rest => (false, rest)
        | rest => (false, rest)
      let digits := rest.takeWhile (·.isDigit)
      if digits.isEmpty then none
      else
        let n : Int := Text.ofDigits (digits.map (·.toNat - 0x30))
        some (if negative then -n else n, rest.dropWhile (·.isDigit))
    else none
  | [] => none

/-- The digits after a decimal point, if any are written. -/
def readFraction : List Char → Option (List Char × List Char)
  | '.' :: rest =>
    let digits := rest.takeWhile (·.isDigit)
    if digits.isEmpty then none else some (digits, rest.dropWhile (·.isDigit))
  | _ => none

def readNumber (negative : Bool) (cs : List Char) : Except JsonFault (Value × List Char) :=
  let (whole, rest) := match cs with
    | '0' :: rest => (['0'], rest)
    | cs => (cs.takeWhile (·.isDigit), cs.dropWhile (·.isDigit))
  if whole.isEmpty then .error .malformed
  else
    let values (ds : List Char) : List Nat := ds.map (·.toNat - 0x30)
    let (fraction, rest') := (readFraction rest).getD ([], rest)
    let (power, rest'') := match readExponent rest' with
      | some (n, r) => (some n, r)
      | none => (none, rest')
    if fraction.isEmpty && power.isNone then
      match Text.natOfDigits (values whole) with
      | .error fault => .error (.integer fault)
      | .ok n => .ok (int (if negative then -(n : Int) else n), rest)
    else
      let digits := Text.ofDigits (values (whole ++ fraction))
      .ok (float (Binary64.ofDecimal negative digits (power.getD 0 - fraction.length)), rest'')

def readWord (cs : List Char) : Option (Value × List Char) :=
  let after (word : String) : Option (List Char) :=
    let w := word.toList
    if w.isPrefixOf cs then some (cs.drop w.length) else none
  [("null", null), ("true", bool true), ("false", bool false), ("NaN", float .undefined),
    ("Infinity", float (.infinite false)), ("-Infinity", float (.infinite true))].findSome?
    fun (word, v) => (after word).map (v, ·)

mutual

/-- A value. The number bounds the depth of nesting and the items together. -/
def readValue : Nat → List Char → Except JsonFault (Value × List Char)
  | 0, _ => .error .malformed
  | fuel + 1, cs =>
    match cs with
    | '"' :: rest =>
      (readStringTail (rest.length + 1) rest).map fun (s, rest) => (text (String.ofList s), rest)
    | '[' :: rest =>
      match skipJsonSpace rest with
      | ']' :: rest => .ok (list [], rest)
      | rest => (readItems fuel rest).map fun (items, rest) => (list items, rest)
    | '\x7b' :: rest =>
      match skipJsonSpace rest with
      | '\x7d' :: rest => .ok (record [], rest)
      | rest => (readFields fuel rest).map fun (fields, rest) => (ofFields fields, rest)
    | cs =>
      match readWord cs with
      | some found => .ok found
      | none =>
        match cs with
        | '-' :: rest => readNumber true rest
        | cs => readNumber false cs

def readItems : Nat → List Char → Except JsonFault (List Value × List Char)
  | 0, _ => .error .malformed
  | fuel + 1, cs => do
    let (v, rest) ← readValue fuel cs
    match skipJsonSpace rest with
    | ']' :: rest => .ok ([v], rest)
    | ',' :: rest =>
      let (vs, rest) ← readItems fuel (skipJsonSpace rest)
      .ok (v :: vs, rest)
    | _ => .error .malformed

def readFields : Nat → List Char → Except JsonFault (List (String × Value) × List Char)
  | 0, _ => .error .malformed
  | fuel + 1, cs => do
    match cs with
    | '"' :: rest =>
      let (name, rest) ← readStringTail (rest.length + 1) rest
      match skipJsonSpace rest with
      | ':' :: rest =>
        let (v, rest) ← readValue fuel (skipJsonSpace rest)
        let field := (String.ofList name, v)
        match skipJsonSpace rest with
        | '\x7d' :: rest => .ok ([field], rest)
        | ',' :: rest =>
          let (fields, rest) ← readFields fuel (skipJsonSpace rest)
          .ok (field :: fields, rest)
        | _ => .error .malformed
      | _ => .error .malformed
    | _ => .error .malformed

end

def ofJson (cs : List Char) : Except JsonFault Value := do
  let (v, rest) ← readValue (2 * cs.length + 2) (skipJsonSpace cs)
  if (skipJsonSpace rest).isEmpty then .ok v else .error .malformed

end MailFilter.Value
