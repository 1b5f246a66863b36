import MailFilter.Script.Reading
import MailFilter.Value.Basic

/-!
# Looking at one statement

The values of the tokens of the first statement of a text, all of them or the first. The end of the
statement is a semicolon, a brace, or the end of the text; what follows does not matter.
-/

namespace MailFilter

def Item.value? (item : Item) : Option Value :=
  match item with
  | .strings values => some (.list (values.map .text))
  | item => if item.hasValue then some (.text item.text) else none

namespace Statement

/-- What is asked for. -/
inductive Mode where
  /-- The values of the statement. -/
  | all
  /-- The first value, if there is one. -/
  | first
  deriving DecidableEq, Repr

def Mode.ofValue? (v : Value) : Option Mode :=
  if v.compareInt? 0 == some (some .eq) then some .all
  else if v.compareInt? 1 == some (some .eq) then some .first
  else none

def badMode (v : Value) : String := "tokenize mode must be 0 or 1, got " ++ v.shown

/-- The values of the first statement. What stops the reading counts if no end comes before it. -/
def values (ts : Tokens) : Except ReadError (List Value) :=
  let found := (ts.tokens.takeWhile (!·.item.endsStatement)).filterMap (·.item.value?)
  if ts.tokens.any (·.item.endsStatement) then .ok found
  else match ts.failure with
    | some e => .error e
    | none => .ok found

def firstValue (ts : Tokens) : Except ReadError (Option Value) :=
  match ((ts.tokens.takeWhile (!·.item.endsStatement)).filterMap (·.item.value?)).head? with
  | some v => .ok (some v)
  | none => (values ts).map fun _ => none

/-- What a mode asks for; nothing is null. -/
def inspect (mode : Mode) (ts : Tokens) : Except ReadError Value :=
  match mode with
  | .all => (values ts).map .list
  | .first => (firstValue ts).map (·.getD .null)

def inspectBytes (mode : Mode) (charset : String) (bytes : Text.Bytes) : Except ReadError Value := do
  inspect mode (Tokens.ofText (← Script.decode charset bytes) charset)

end Statement

end MailFilter
