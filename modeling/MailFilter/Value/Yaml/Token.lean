import MailFilter.Text.Quoted
import MailFilter.Value.Yaml.Scalar

/-!
# The tokens of a settings document

Settings are written in YAML: records and lists in block style, where indentation tells what belongs
together, or in flow style, between brackets. The tokens of a document tell this structure, so that
what reads them need not look at columns. Directives, anchors, tags and block scalars are not read.
-/

namespace MailFilter.Value.Yaml

/-- A token. The start of a block list or record is told by a token of its own, as is its end. -/
inductive Token where
  | documentStart
  | documentEnd
  | blockList
  | blockRecord
  | blockEnd
  | entry
  | key
  | value
  | flowList
  | flowListEnd
  | flowRecord
  | flowRecordEnd
  | comma
  | scalar (text : String) (plain : Bool)
  deriving DecidableEq, Repr

/-- A text that is no document. -/
inductive Fault where
  | malformed
  /-- A scalar has the form of an integer and stands for none. -/
  | scalar (fault : ScalarFault)

def isBreak (c : Char) : Bool :=
  c == '\n' || c.toNat == 0x85 || c.toNat == 0x2028 || c.toNat == 0x2029

def isGap (c : Char) : Bool := c == ' ' || c == '\t' || isBreak c

/-- Whether nothing or a character that parts tokens comes first. -/
def endsToken (cs : List Char) : Bool := cs.head?.all isGap

def isAllowed (c : Char) : Bool :=
  let n := c.toNat
  n == 0x9 || n == 0xA || n == 0xD || (0x20 ≤ n && n ≤ 0x7E) || n == 0x85 ||
    (0xA0 ≤ n && n ≤ 0xFFFD) || 0x10000 ≤ n

/-- A place where the next token starts: the text from there on, its line, its column, and how much
text is before it. -/
structure Cursor where
  rest : List Char
  line : Nat
  column : Nat
  index : Nat

def Cursor.advance (k : Cursor) (c : Char) : Cursor :=
  if isBreak c then ⟨k.rest.tail, k.line + 1, 0, k.index + 1⟩
  else ⟨k.rest.tail, k.line, k.column + 1, k.index + 1⟩

def Cursor.after (k : Cursor) (text : List Char) : Cursor := text.foldl advance k

/-! ## Blanks and scalars -/

/-- The blanks, comments and line breaks before a token. -/
def gap (comment : Bool) : List Char → List Char
  | [] => []
  | c :: cs =>
    if isBreak c then c :: gap false cs
    else if comment || c == ' ' then c :: gap comment cs
    else if c == '#' then c :: gap true cs
    else []

/-- Whether a line opens with the mark of a document. -/
def atMark (cs : List Char) : Bool :=
  (cs.take 3 == ['-', '-', '-'] || cs.take 3 == ['.', '.', '.']) && endsToken (cs.drop 3)

/-- Line breaks in a scalar: one is a blank, and of several all but the first stay. -/
def folded (breaks : List Char) : List Char :=
  match breaks with
  | [] => []
  | c :: more => (if c == '\n' || c.toNat == 0x85 then [] else [c]) ++
      (if more.isEmpty && (c == '\n' || c.toNat == 0x85) then [' '] else
        more.map fun c => if c.toNat == 0x85 then '\n' else c)

/-- A piece of a plain scalar without blanks. -/
def plainWord (flow : Bool) : List Char → List Char
  | [] => []
  | c :: cs =>
    let stops := isGap c || (flow && [',', '?', '[', ']', '\x7b', '\x7d'].contains c) ||
      (c == ':' && (endsToken cs ||
        (flow && cs.head?.any [',', '[', ']', '\x7b', '\x7d'].contains)))
    if stops then [] else c :: plainWord flow cs

/-- The breaks of lines that hold blanks alone, and the text over which they go. -/
def emptyLines (blank : Char → Bool) : List Char → List Char × List Char
  | [] => ([], [])
  | c :: cs =>
    if isBreak c then
      if atMark cs then ([c], [c])
      else let (breaks, read) := emptyLines blank cs; (c :: breaks, c :: read)
    else if blank c then
      let (breaks, read) := emptyLines blank cs
      (breaks, c :: read)
    else ([], [])

/-- The rest of a plain scalar after `done`, its place, and whether a line break came after it. It
goes on over blanks and in lines that are further in. -/
def plainTail (flow : Bool) (indent : Int) : Nat → List Char → Bool → Cursor →
    List Char × Bool × Cursor
  | 0, done, broke, k => (done, broke, k)
  | fuel + 1, done, broke, k =>
    let blanks := k.rest.takeWhile (· == ' ')
    let past := k.after blanks
    let joined (space : List Char) (broke : Bool) (k : Cursor) : List Char × Bool × Cursor :=
      let word := plainWord flow k.rest
      if k.rest.head? == some '#' || (!flow && (k.column : Int) < indent) || word.isEmpty then
        (done, broke, k)
      else plainTail flow indent fuel (done ++ space ++ word) false (k.after word)
    if past.rest.head?.any isBreak then
      let (breaks, read) := emptyLines (· == ' ') past.rest
      let next := past.after read
      if next.column == 0 && atMark next.rest then (done, true, next)
      else joined (folded breaks) true next
    else if blanks.isEmpty then (done, broke, k)
    else joined blanks broke past

/-- A plain scalar, whether a line break came after it, and its place after both. -/
def plainScalar (flow : Bool) (indent : Int) (k : Cursor) : List Char × Bool × Cursor :=
  let word := plainWord flow k.rest
  plainTail flow indent k.rest.length word false (k.after word)

def escaped? (c : Char) : Option Char :=
  match c with
  | '0' => some '\x00'
  | 'a' => some '\x07'
  | 'b' => some '\x08'
  | 't' | '\t' => some '\t'
  | 'n' => some '\n'
  | 'v' => some '\x0b'
  | 'f' => some '\x0c'
  | 'r' => some '\r'
  | 'e' => some '\x1b'
  | ' ' | '"' | '\\' | '/' => some c
  | 'N' => some '\u0085'
  | '_' => some '\u00a0'
  | 'L' => some '\u2028'
  | 'P' => some '\u2029'
  | _ => none

/-- How many hexadecimal digits follow an escape. -/
def escapeWidth? : Char → Option Nat
  | 'x' => some 2
  | 'u' => some 4
  | 'U' => some 8
  | _ => none

def codePoint? (n : Nat) : Option Char := if n.isValidChar then some (Char.ofNat n) else none

/-- The breaks of empty lines inside quotes, and the text over which they go. A document may not end
there. -/
def quotedLines (cs : List Char) : Except Fault (List Char × List Char) :=
  let (breaks, read) := emptyLines (fun c => c == ' ' || c == '\t') cs
  if read.getLast?.any isBreak && atMark (cs.drop read.length) then .error .malformed
  else .ok (breaks, read)

/-- The next piece between quotes: what it stands for, and how long it is. At the closing quote
there is none. -/
def quotedPiece (double : Bool) : List Char → Except Fault (Option (List Char × Nat))
  | [] => .error .malformed
  | c :: cs =>
    if c == (if double then '"' else '\'') then
      .ok (if !double && cs.head? == some c then some ([c], 2) else none)
    else if double && c == '\\' then
      match cs with
      | [] => .error .malformed
      | e :: rest =>
        if isBreak e then do
          let (breaks, read) ← quotedLines cs
          return some (breaks.tail, 1 + read.length)
        else match escaped? e, escapeWidth? e with
          | some d, _ => .ok (some ([d], 2))
          | none, some width =>
            let digits := rest.take width
            match if digits.length == width then Text.hexNumber? digits else none with
            | some n => match codePoint? n with
              | some d => .ok (some ([d], 2 + width))
              | none => .error .malformed
            | none => .error .malformed
          | none, none => .error .malformed
    else if isGap c then
      let blanks := (c :: cs).takeWhile fun c => c == ' ' || c == '\t'
      let rest := (c :: cs).drop blanks.length
      if rest.head?.any isBreak then do
        let (breaks, read) ← quotedLines rest
        return some (folded breaks, blanks.length + read.length)
      else .ok (some (blanks, blanks.length))
    else .ok (some ([c], 1))

/-- What stands between quotes after the opening one, and the place after the closing one. -/
def quotedScalar (double : Bool) : Nat → Cursor → Except Fault (List Char × Cursor)
  | 0, _ => .error .malformed
  | fuel + 1, k => do
    match ← quotedPiece double k.rest with
    | none => return ([], k.after (k.rest.take 1))
    | some (value, length) =>
      let (more, k) ← quotedScalar double fuel (k.after (k.rest.take length))
      return (value ++ more, k)

/-! ## Structure -/

/-- A token that may turn out to be a key, once a colon follows: its number and its place. A key
that opens a line of a record has to be one. -/
structure Key where
  token : Nat
  index : Nat
  line : Nat
  column : Nat
  needed : Bool

/-- How far a document has been read: the place, the tokens, the number of open brackets, the
column of the innermost block and those of the blocks around it, whether a key may come next, and
the possible keys by the brackets around them. -/
structure Scan where
  cursor : Cursor
  tokens : Array Token
  flow : Nat
  indent : Int
  indents : List Int
  keyAllowed : Bool
  keys : List (Nat × Key)

namespace Scan

def add (s : Scan) (t : Token) : Scan := { s with tokens := s.tokens.push t }

def skip (s : Scan) (n : Nat) : Scan := { s with cursor := s.cursor.after (s.cursor.rest.take n) }

/-- Closes the blocks that are further in than a column. -/
def unwind (s : Scan) (column : Int) : Scan :=
  if s.flow > 0 then s
  else
    let open' := s.indent :: s.indents
    let closed := open'.takeWhile (· > column)
    match open'.drop closed.length with
    | [] => s
    | indent :: indents =>
      { s with
        tokens := closed.foldl (fun ts _ => ts.push .blockEnd) s.tokens
        indent, indents }

def opens (s : Scan) (column : Nat) : Bool := s.indent < column

def opened (s : Scan) (column : Nat) : Scan :=
  { s with indent := column, indents := s.indent :: s.indents }

/-- Drops the possible key inside the innermost brackets. -/
def dropKey (s : Scan) : Except Fault Scan :=
  if s.keys.any fun (level, key) => level == s.flow && key.needed then .error .malformed
  else .ok { s with keys := s.keys.filter (·.1 != s.flow) }

/-- Drops the possible keys that are too far away: a key and its colon share a line. -/
def dropStale (s : Scan) : Except Fault Scan :=
  let stale (key : Key) : Bool := key.line != s.cursor.line || s.cursor.index > key.index + 1024
  if s.keys.any fun (_, key) => stale key && key.needed then .error .malformed
  else .ok { s with keys := s.keys.filter fun (_, key) => !stale key }

/-- Takes the next token for a possible key. -/
def noteKey (s : Scan) : Except Fault Scan :=
  if s.keyAllowed then do
    let k := s.cursor
    let key : Key := ⟨s.tokens.size, k.index, k.line, k.column, s.flow == 0 && s.indent == k.column⟩
    let s ← s.dropKey
    return { s with keys := (s.flow, key) :: s.keys }
  else .ok s

def openFlow (s : Scan) (t : Token) : Except Fault Scan := do
  let s ← s.noteKey
  return { s.add t with flow := s.flow + 1, keyAllowed := true }.skip 1

def closeFlow (s : Scan) (t : Token) : Except Fault Scan := do
  let s ← s.dropKey
  return { s.add t with flow := s.flow - 1, keyAllowed := false }.skip 1

def mark (s : Scan) (t : Token) : Except Fault Scan := do
  let s ← (s.unwind (-1)).dropKey
  return { s.add t with keyAllowed := false }.skip 3

def blockEntry (s : Scan) : Except Fault Scan := do
  let s ← if s.flow > 0 then pure s
    else if !s.keyAllowed then throw .malformed
    else if s.opens s.cursor.column then pure ((s.opened s.cursor.column).add .blockList)
    else pure s
  let s ← { s with keyAllowed := true }.dropKey
  return (s.add .entry).skip 1

def explicitKey (s : Scan) : Except Fault Scan := do
  let s ← if s.flow > 0 then pure s
    else if !s.keyAllowed then throw .malformed
    else if s.opens s.cursor.column then pure ((s.opened s.cursor.column).add .blockRecord)
    else pure s
  let s ← { s with keyAllowed := s.flow == 0 }.dropKey
  return (s.add .key).skip 1

/-- A colon: the possible key before it becomes one. -/
def colon (s : Scan) : Except Fault Scan := do
  match s.keys.find? (·.1 == s.flow) with
  | some (_, key) =>
    let s := { s with
      keys := s.keys.filter (·.1 != s.flow), keyAllowed := false
      tokens := s.tokens.insertIdxIfInBounds key.token .key }
    let s :=
      if s.flow == 0 && s.opens key.column then
        { s.opened key.column with tokens := s.tokens.insertIdxIfInBounds key.token .blockRecord }
      else s
    return (s.add .value).skip 1
  | none =>
    let s ← if s.flow > 0 then pure s
      else if !s.keyAllowed then throw .malformed
      else if s.opens s.cursor.column then pure ((s.opened s.cursor.column).add .blockRecord)
      else pure s
    let s ← { s with keyAllowed := s.flow == 0 }.dropKey
    return (s.add .value).skip 1

/-- Whether a character opens no plain scalar on its own. -/
def isSign (c : Char) : Bool :=
  ['\t', '-', '?', ':', '#', '&', '*', '!', '|', '>', '%', '@', '\x60'].contains c

def token (s : Scan) (c : Char) (cs : List Char) : Except Fault Scan :=
  let k := s.cursor
  let flow := s.flow > 0
  if k.column == 0 && c == '%' then .error .malformed
  else if k.column == 0 && atMark (c :: cs) then
    s.mark (if c == '-' then .documentStart else .documentEnd)
  else if c == '[' then s.openFlow .flowList
  else if c == '\x7b' then s.openFlow .flowRecord
  else if c == ']' then s.closeFlow .flowListEnd
  else if c == '\x7d' then s.closeFlow .flowRecordEnd
  else if c == ',' then do
    let s ← { s with keyAllowed := true }.dropKey
    return (s.add .comma).skip 1
  else if c == '-' && endsToken cs then s.blockEntry
  else if c == '?' && (flow || endsToken cs) then s.explicitKey
  else if c == ':' && (flow || endsToken cs) then s.colon
  else if c == '\'' || c == '"' then do
    let s ← s.noteKey
    let (value, k) ← quotedScalar (c == '"') (cs.length + 1) (k.after [c])
    return { s with cursor := k, keyAllowed := false }.add (.scalar (String.ofList value) false)
  else if !isSign c ||
      (!endsToken cs && (c == '-' || (!flow && (c == '?' || c == ':')))) then do
    let s ← s.noteKey
    let (value, broke, k) := plainScalar flow (s.indent + 1) k
    return { s with cursor := k, keyAllowed := broke }.add (.scalar (String.ofList value) true)
  else .error .malformed

/-- Reads tokens up to the end. Every one takes at least one character. -/
def run : Nat → Scan → Except Fault (List Token)
  | 0, _ => .error .malformed
  | fuel + 1, s => do
    let read := gap false s.cursor.rest
    let broke := read.any isBreak && s.flow == 0
    let s := { s with cursor := s.cursor.after read, keyAllowed := s.keyAllowed || broke }
    let s ← s.dropStale
    let s := s.unwind s.cursor.column
    match s.cursor.rest with
    | [] => do
      let s ← (s.unwind (-1)).dropKey
      return s.tokens.toList
    | c :: cs => run fuel (← s.token c cs)

end Scan

/-- The tokens of a document. A byte order mark at the front is left out. -/
def tokens (cs : List Char) : Except Fault (List Token) :=
  if !cs.all isAllowed then .error .malformed
  else
    let cs := if cs.head? == some '\ufeff' then cs.tail else cs
    Scan.run (cs.length + 1) ⟨⟨cs, 0, 0, 0⟩, #[], 0, -1, [], true, []⟩

end MailFilter.Value.Yaml
