import MailFilter.Literal
import MailFilter.Script.Misfit
import MailFilter.Text.Charset

/-!
# The canonical text of a script

One command a line, nested blocks further in, comments above what they belong to, and the
capabilities of a script in its first line. The text is laid out with line feeds, which a line
ending of two characters replaces at the very end.
-/

namespace MailFilter

/-- How a line ends. -/
inductive LineEnding where
  | lf
  | crlf
  deriving DecidableEq, Repr

def LineEnding.ofText? (text : String) : Option LineEnding :=
  if text == "\n" then some .lf else if text == "\r\n" then some .crlf else none

def LineEnding.text : LineEnding → String
  | lf => "\n"
  | crlf => "\r\n"

def LineEnding.apply : LineEnding → List Char → List Char
  | lf, cs => cs
  | crlf, cs => cs.flatMap fun c => if c == '\n' then ['\r', '\n'] else [c]

def LineEnding.ofValue? (v : Value) : Option LineEnding := v.text?.bind LineEnding.ofText?

/-- Choices of layout: one level of indentation, which is repeated for more; the line ending; the
length, if there is one, beyond which strings are written line by line; whether comments are
written, whether a blank line follows the capabilities, and whether the tests of a list stand on
lines of their own. -/
structure LayoutOptions where
  indent : Value
  ending : LineEnding
  threshold : Option Nat
  comments : Bool
  blankLine : Bool
  splitTests : Bool
  threshold_pos : ∀ n, threshold = some n → 0 < n

/-- Four blanks, line feeds, 1024 characters, and yes to the rest. -/
def LayoutOptions.default : LayoutOptions :=
  ⟨.text "    ", .lf, some 1024, true, true, true, fun _ h => Option.some.inj h ▸ by decide⟩

/-- Why choices are no layout. -/
inductive LayoutError where
  | ending (found : Value)
  | threshold
  /-- A threshold that is no number. -/
  | noNumber

def LayoutError.message : LayoutError → String
  | ending found => "newline must be '\\n' or '\\r\\n', got " ++ found.shown
  | threshold => "multiline_threshold must be positive"
  | noNumber => ""

/-- The length that a positive number stands for. No length is as much as a number without end. -/
def lengthOf (v : Value) : Option Nat := (v.toInteger.toOption.map Int.toNat).filter (0 < ·)

/-- The options of a line ending written out and of any threshold. -/
def LayoutOptions.make (indent ending threshold : Value) (comments blankLine splitTests : Bool) :
    Except LayoutError LayoutOptions :=
  match LineEnding.ofValue? ending with
  | none => .error (.ending ending)
  | some e =>
    match threshold.compareInt? 1 with
    | none => .error .noNumber
    | some (some .lt) => .error .threshold
    | some _ =>
      .ok ⟨indent, e, lengthOf threshold, comments, blankLine, splitTests, fun n h => by
        have := Option.filter_eq_some_iff.1 h
        simpa using this.2⟩

namespace Layout

def indentation (o : LayoutOptions) (level : Nat) : List Char :=
  (((o.indent.times? level).map Value.plain).getD "").toList

/-- Parts with a blank between them, unless nothing or the end of a line stands before it. -/
def join (parts : List (List Char)) : List Char :=
  parts.foldl
    (fun text part =>
      (if text.isEmpty || Literal.endsLine text then text else text ++ [' ']) ++ part)
    []

def gap (text : List Char) : List Char := if Literal.endsLine text then [] else [' ']

mutual

def argument (o : LayoutOptions) (level : Nat) : Argument α → List Char
  | .string value _ _ => Literal.write o.threshold value
  | .strings values _ => Literal.writeList o.threshold values
  | .number value unit _ => (toString value ++ unit.text).toList
  | .tag name _ => name.toList
  | .test t => test o level t
  | .foreign shown => shown.toList

/-- A test at a level. A single test follows `not` directly; other tests stand in parentheses, and
several of them one a line, a level further in. -/
def test (o : LayoutOptions) (level : Nat) : Test α → List Char
  | .mk name as ts _ =>
    let head := join (name.toList :: arguments o level as)
    match ts with
    | [] => head
    | [t] =>
      if Keyword.ofName? name == some .notTest then join [head, argument o level t]
      else head ++ gap head ++ '(' :: argument o (level + 1) t ++ [')']
    | ts =>
      let inner := arguments o (level + 1) ts
      if o.splitTests then
        let lines := inner.map (indentation o (level + 1) ++ ·)
        head ++ gap head ++ ['(', '\n'] ++ [',', '\n'].intercalate lines ++
          '\n' :: indentation o level ++ [')']
      else head ++ gap head ++ '(' :: Literal.commaJoin inner ++ [')']

def arguments (o : LayoutOptions) (level : Nat) : List (Argument α) → List (List Char)
  | [] => []
  | a :: as => argument o level a :: arguments o level as

end

/-- Comments at a level: every line of one becomes a comment of its own. -/
def comments (o : LayoutOptions) (level : Nat) (cs : List Comment) : List Char :=
  if o.comments then
    cs.flatMap fun c => Text.unlines <| (Text.lines c.text.toList).map fun line =>
      indentation o level ++ '#' :: Text.trimRight line
  else []

def head (o : LayoutOptions) (level : Nat) (h : Head α) : List Char :=
  join (h.name.toList :: arguments o level h.arguments)

mutual

def command (o : LayoutOptions) (level : Nat) : Command α → List Char
  | .simple h => comments o level h.comments ++ indentation o level ++ head o level h ++ [';', '\n']
  | .control h cs trailing _ =>
    comments o level h.comments ++ indentation o level ++ head o level h ++ gap (head o level h) ++
      ['\x7b', '\n'] ++ commands o (level + 1) cs ++ comments o (level + 1) trailing ++
      indentation o level ++ ['\x7d', '\n']

def commands (o : LayoutOptions) (level : Nat) : List (Command α) → List Char
  | [] => []
  | c :: cs => command o level c ++ commands o level cs

end

/-- The command that the capabilities of a script belong to: its comments and the capabilities. A
blank line may follow where there are other commands. -/
def require (o : LayoutOptions) (capabilities : List String) (others : Bool) (c : Command α) :
    List Char :=
  comments o 0 c.head.comments ++ "require ".toList ++ Literal.writeList o.threshold capabilities ++
    [';', '\n'] ++ if o.blankLine && others then ['\n'] else []

/-- The top level of a script with line feeds: its commands, each with whether the capabilities
belong to it, and the comments at the end. -/
def top (o : LayoutOptions) (capabilities : List String) (lineup : List (Bool × Command α))
    (trailing : List Comment) : List Char :=
  (lineup.flatMap fun (holds, c) =>
    if holds then require o capabilities (1 < lineup.length) c else command o 0 c) ++
  comments o 0 trailing

end Layout

/-- The commands of a script; the capabilities belong to a `require` at the front that has no
arguments of its own. -/
def Script.lineup [Leaf τ] (s : Script α τ) : List (Bool × Command α τ) :=
  match s.commands with
  | [] => []
  | c :: cs => (c.head.isBareRequire, c) :: cs.map (false, ·)

def Layout.script (o : LayoutOptions) (s : Script α) : List Char :=
  Layout.top o s.capabilities s.lineup s.block.trailing

def Script.text (o : LayoutOptions) (s : Script α) : String :=
  String.ofList (o.ending.apply (Layout.script o s))

/-! ## Trees that came as data -/

namespace Layout

/-- Only what has multiples indents. -/
def fitIndent (o : LayoutOptions) : Fit :=
  if (o.indent.times? 1).isSome then .ok () else .error .operand

/-- What stands between blanks in a line. -/
def fitWords (name : Value) (arguments : List (Argument α Value)) : Fit := do
  name.fitWord
  arguments.forM fun
    | .tag name _ => name.fitWord
    | _ => .ok ()

mutual

def fitArgument : Argument α Value → Fit
  | .string value _ _ => value.fitLiteral
  | .strings values _ => values.forM Value.fitLiteral
  | .number .. | .tag .. => .ok ()
  | .test t => fitTest t
  | .foreign shown => .error (.argument shown)

def fitTest : Test α Value → Fit
  | .mk name as ts _ => do
    fitArguments as
    fitWords name as
    fitInner ts

def fitArguments : List (Argument α Value) → Fit
  | [] => .ok ()
  | a :: as => do fitArgument a; fitArguments as

def fitInner : List (Argument α Value) → Fit
  | [] => .ok ()
  | .test t :: as => do fitTest t; fitInner as
  | _ :: _ => .error .member

end

def fitComments (o : LayoutOptions) (cs : List (Comment Value)) : Fit :=
  if o.comments then do fitIndent o; cs.forM (·.text.fitText) else .ok ()

def fitHead (o : LayoutOptions) (h : Head α Value) : Fit := do
  fitIndent o
  fitComments o h.comments
  fitArguments h.arguments
  fitWords h.name h.arguments

mutual

def fitCommand (o : LayoutOptions) : Command α Value → Fit
  | .simple h => fitHead o h
  | .control h cs trailing _ => do
    fitHead o h
    fitCommands o cs
    fitComments o trailing

def fitCommands (o : LayoutOptions) : List (Command α Value) → Fit
  | [] => .ok ()
  | c :: cs => do fitCommand o c; fitCommands o cs

end

def fitTop (o : LayoutOptions) (capabilities : List Value) (lineup : List (Bool × Command α Value))
    (trailing : List (Comment Value)) : Fit := do
  lineup.forM fun (holds, c) =>
    if holds then do
      fitComments o c.head.comments
      capabilities.forM Value.fitLiteral
    else fitCommand o c
  fitComments o trailing

def ofData (o : LayoutOptions) (capabilities : List Value) (lineup : List (Bool × Command α Value))
    (trailing : List (Comment Value)) : Except Misfit String := do
  fitTop o capabilities lineup trailing
  let lines := top o (capabilities.map Value.plain) (lineup.map fun (holds, c) => (holds, c.settled))
    (trailing.map (·.map Value.plain))
  return String.ofList (o.ending.apply lines)

end Layout

/-- The canonical text of a script that came as data. -/
def Script.dataText (o : LayoutOptions) (s : Script α Value) : Except Misfit String := do
  s.fitFront
  Layout.ofData o s.capabilities s.lineup s.block.trailing

/-! ## Bytes -/

/-- Why a text is not written as bytes. -/
inductive WriteError where
  | charset (name : String)
  | encode (error : Text.EncodeError)

def WriteError.message : WriteError → String
  | charset name => Text.unknownCharset name
  | encode error => error.message

def encodeText (charset : String) (text : String) : Except WriteError Text.Bytes :=
  match Text.Charset.ofName? charset with
  | none => .error (.charset charset)
  | some c => (c.encode text.toList).mapError .encode

def Script.bytes (o : LayoutOptions) (charset : String) (s : Script α) :
    Except WriteError Text.Bytes :=
  encodeText charset (s.text o)

end MailFilter
