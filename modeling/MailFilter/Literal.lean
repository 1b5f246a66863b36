import MailFilter.Text.Lines

/-!
# String literals

A string is written between quotes, or line by line after `text:`. Which of the two stands for a
string depends on its line breaks and its length.
-/

namespace MailFilter.Literal

def escape (c : Char) : List Char :=
  if c == '"' || c == '\\' || c == '\r' then ['\\', c] else [c]

def quoted (value : List Char) : List Char := '"' :: value.flatMap escape ++ ['"']

def stuff : List Char → List Char
  | '.' :: cs => '.' :: '.' :: cs
  | cs => cs

def multiline (value : List Char) : List Char :=
  "text:\n".toList ++ Text.unlines ((Text.lines value).map stuff) ++ ['.', '\n']

/-- The form for a string: a carriage return needs quotes; a line feed, or more characters than a
threshold, makes it a multi-line string. Without a threshold no string has too many. -/
def write (threshold : Option Nat) (value : String) : List Char :=
  let cs := value.toList
  if cs.contains '\r' then quoted cs
  else if cs.contains '\n' || threshold.any (· < cs.length) then multiline cs
  else quoted cs

def endsLine (cs : List Char) : Bool := cs.getLast? == some '\n'

/-- Literals with commas between them, and a blank after a comma unless a line ends before it. -/
def commaJoin : List (List Char) → List Char
  | [] => []
  | item :: items =>
    items.foldl
      (fun text item => text ++ (if endsLine text then [','] else [',', ' ']) ++ item) item

def writeList (threshold : Option Nat) (values : List String) : List Char :=
  '[' :: commaJoin (values.map (write threshold)) ++ [']']

end MailFilter.Literal
