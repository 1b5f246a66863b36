import MailFilter.Position
import MailFilter.Text.Quoted

/-!
# Tokens

What the words and signs of a script are, with the values that literals stand for.
-/

namespace MailFilter

/-- What a token is. Literals hold the value they stand for, words their text. -/
inductive Item where
  | identifier (name : String)
  | tag (name : String)
  | number (text : String)
  | quoted (value : String)
  | multiline (value : String)
  | strings (values : List String)
  | semicolon
  | openBrace
  | closeBrace
  | openParen
  | closeParen
  | comma
  | comment (text : String)
  | endOfInput
  deriving DecidableEq, Repr

namespace Item

def kindName : Item → String
  | identifier _ => "IDENTIFIER"
  | tag _ => "TAG"
  | number _ => "NUMBER"
  | quoted _ => "STRING"
  | multiline _ => "MULTILINE"
  | strings _ => "STRING_LIST"
  | semicolon => "SEMICOLON"
  | openBrace => "LBRACE"
  | closeBrace => "RBRACE"
  | openParen => "LPAREN"
  | closeParen => "RPAREN"
  | comma => "COMMA"
  | comment _ => "COMMENT"
  | endOfInput => "EOF"

/-- The text of a token: the value of a literal, the sign of a sign; a list of strings has none. -/
def text : Item → String
  | identifier s | tag s | number s | quoted s | multiline s | comment s => s
  | strings _ | endOfInput => ""
  | semicolon => ";"
  | openBrace => "\x7b"
  | closeBrace => "\x7d"
  | openParen => "("
  | closeParen => ")"
  | comma => ","

/-- Whether a token has a value of its own: a word, a number, a literal. -/
def hasValue : Item → Bool
  | identifier _ | tag _ | number _ | quoted _ | multiline _ | strings _ => true
  | _ => false

/-- Whether a token ends a statement for a reader that looks at one statement only. -/
def endsStatement : Item → Bool
  | semicolon | openBrace | closeBrace | endOfInput => true
  | _ => false

def isComment : Item → Bool
  | comment _ => true
  | _ => false

def shownValue : Item → String
  | strings values => Text.quotedList values
  | item => Text.quoted item.text

end Item

/-- A token and its place. -/
structure Token where
  item : Item
  pos : Pos
  deriving DecidableEq, Repr

def Token.shown (t : Token) : String :=
  "Token(" ++ t.item.kindName ++ ", " ++ t.item.shownValue ++ ", L" ++ toString t.pos.line ++ ":" ++
    toString t.pos.column ++ ")"

end MailFilter
