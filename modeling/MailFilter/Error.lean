import MailFilter.Lexeme
import MailFilter.Text.Charset
import MailFilter.Value.Basic

/-!
# Why a text is not read

The faults that stop the reading of a script, where each is reported, and its text.
-/

namespace MailFilter

/-- Why a text is no script. -/
inductive Fault where
  /-- The text does not split into lexemes. -/
  | lexeme (fault : Lexeme.Fault)
  /-- The bytes are no text of the charset. -/
  | bytes (charset : String) (reason : Text.DecodeReason)
  | noCommand (found : Item)
  | strayBrace
  | unclosedBlock
  /-- Tests in parentheses right after the name and the arguments of a command. -/
  | looseTests (command : String)
  /-- The script ends inside a command. -/
  | commandCut (command : String)
  /-- Neither a semicolon nor a block ends a command. -/
  | noEnd (command : String) (found : Item)
  /-- A command that has a block ends in a semicolon. -/
  | blockMissing (command : String)
  /-- A command that has no block gets one. -/
  | blockRefused (command : String)
  | noTest
  | noTests
  | unclosedTests
  /-- Neither a comma nor a parenthesis follows a test in a list. -/
  | noSeparator (found : Item)
  deriving DecidableEq, Repr

def Fault.message : Fault → String
  | lexeme fault => fault.message
  | bytes charset reason => "Invalid " ++ charset ++ " data: " ++ reason.message
  | noCommand found => "Expected command name, got " ++ found.kindName
  | strayBrace => "Unexpected '\x7d' (unbalanced braces?)"
  | unclosedBlock => "Unterminated block: missing '\x7d'"
  | looseTests command => "Test list not allowed directly after command '" ++ command ++ "'"
  | commandCut command => "Expected ';' or '\x7b' after '" ++ command ++ "', got end of script"
  | noEnd command found => "Expected ';' or '\x7b' after '" ++ command ++ "', got " ++ found.kindName
  | blockMissing command => "'" ++ command ++ "' requires a block, got ';'"
  | blockRefused command => "'" ++ command ++ "' must be terminated by ';', got a block"
  | noTest => "Expected test name"
  | noTests => "Empty test list"
  | unclosedTests => "Unterminated test list: missing ')'"
  | noSeparator found => "Expected ',' or ')' in test list, got " ++ found.kindName

/-- A fault and where it is reported. -/
structure SyntaxError where
  fault : Fault
  pos : Pos
  deriving DecidableEq, Repr

def SyntaxError.message (e : SyntaxError) : String :=
  let offset := "offset " ++ toString e.pos.offset
  let place :=
    if e.pos.line == 0 then offset
    else "line " ++ toString e.pos.line ++ ", column " ++ toString e.pos.column ++ " (" ++ offset ++ ")"
  "Syntax error at " ++ place ++ ": " ++ e.fault.message

/-- Blocks and tests that nest deeper than a limit, and where. -/
structure DepthError where
  limit : Value
  line : Value
  column : Value

def DepthError.message (e : DepthError) : String :=
  "Nesting depth limit of " ++ e.limit.plain ++ " exceeded at line " ++ e.line.plain ++
    ", column " ++ e.column.plain

/-- Why a script is not read. -/
inductive ReadError where
  | invalid (error : SyntaxError)
  | tooDeep (error : DepthError)
  /-- A limit that is no number. -/
  | limit
  /-- A number with too many digits. -/
  | number (fault : Text.IntegerFault)
  /-- A charset that nobody knows, with something to read in it. -/
  | charset (name : String)
  /-- Bytes that are no text of the charset, told as such and not as a fault of the script. -/
  | bytes (error : Text.DecodeError)

def ReadError.at (fault : Fault) (pos : Pos) : ReadError := .invalid ⟨fault, pos⟩

def ReadError.message : ReadError → String
  | invalid error => error.message
  | tooDeep error => error.message
  | limit => ""
  | number fault => fault.message
  | charset name => Text.unknownCharset name
  | bytes error => error.message

end MailFilter
