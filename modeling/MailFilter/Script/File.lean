import MailFilter.Script.Layout
import MailFilter.Script.Reading

/-!
# Script files

What the bytes of a file mean. Bytes that are no text of the charset asked for are read as UTF-8,
with or without a byte order mark, and failing that as Latin-1, which every file is.
-/

namespace MailFilter.ScriptFile

/-- The text of a file in one charset. A file that is the front of a byte order mark is empty where
a mark is expected. -/
def decodeIn (charset : Text.Charset) (bytes : Text.Bytes) : Except Text.DecodeError (List Char) :=
  if charset == .utf8Marked && bytes.length < 3 && bytes.isPrefixOf Text.byteOrderMark then .ok []
  else charset.decode bytes

def firstText (charsets : List Text.Charset) (bytes : Text.Bytes) : List Char :=
  (charsets.findSome? fun c => (decodeIn c bytes).toOption).getD []

/-- The text of a file. A charset that nobody knows is an error, even of an empty file. -/
def read (charset : String) (bytes : Text.Bytes) : Except ReadError String :=
  match Text.Charset.ofName? charset with
  | none => .error (.charset charset)
  | some c => .ok (String.ofList (firstText [c, .utf8Marked, .latin1] bytes))

def tokens (charset : String) (bytes : Text.Bytes) : Except ReadError (List Token) := do
  (Tokens.ofText (← read charset bytes) charset).complete

def parse (charset : String) (bytes : Text.Bytes) (filename : String) (o : ReadOptions) :
    Except ReadError Script := do
  Script.ofTextIn charset (← read charset bytes) filename o

/-- The canonical text of the script that a file is. A script that was read has nothing in it that
cannot be written. -/
def format (charset : String) (bytes : Text.Bytes) (filename : String) (l : LayoutOptions) :
    Except ReadError String := do
  let s ← parse charset bytes filename .default
  return String.ofList (l.ending.apply (Layout.script l s))

def isFormatted (charset : String) (bytes : Text.Bytes) (filename : String) (l : LayoutOptions) :
    Except ReadError Bool := do
  let text ← format charset bytes filename l
  return text == (← read charset bytes)

end MailFilter.ScriptFile
