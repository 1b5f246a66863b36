import MailFilter.Text.Integer
import MailFilter.Value.Binary64

/-!
# Data values

The values that JSON texts and settings files hold: what kind they are, how messages show them, and
what they mean where a number or a truth value is asked for. In a tree that came as data any of them
may stand where text belongs.
-/

namespace MailFilter

/-- A data value. A record keeps its fields in order and has every name once. -/
inductive Value where
  | null
  | bool (b : Bool)
  | int (n : Int)
  | float (x : Value.Binary64)
  | text (s : String)
  | list (items : List Value)
  | record (fields : List (String × Value))
  deriving Inhabited

namespace Value

def kindName : Value → String
  | null => "NoneType"
  | bool _ => "bool"
  | int _ => "int"
  | float _ => "float"
  | text _ => "str"
  | list _ => "list"
  | record _ => "dict"

def get? (name : String) : Value → Option Value
  | record fields => (fields.find? (·.1 == name)).map (·.2)
  | _ => none

/-- Fields with one more: a name that is there keeps its place and gets the new value. -/
def putField (fields : List (String × Value)) (name : String) (value : Value) :
    List (String × Value) :=
  if fields.any (·.1 == name) then fields.map fun f => if f.1 == name then (name, value) else f
  else fields ++ [(name, value)]

def ofFields (fields : List (String × Value)) : Value :=
  record (fields.foldl (fun fs (name, value) => putField fs name value) [])

mutual

def shown : Value → String
  | null => "None"
  | bool b => if b then "True" else "False"
  | int n => toString n
  | float x => x.text
  | text s => Text.quoted s
  | list items => "[" ++ ", ".intercalate (shownItems items) ++ "]"
  | record fields => "\x7b" ++ ", ".intercalate (shownFields fields) ++ "\x7d"

def shownItems : List Value → List String
  | [] => []
  | v :: vs => v.shown :: shownItems vs

def shownFields : List (String × Value) → List String
  | [] => []
  | (name, v) :: fs => (Text.quoted name ++ ": " ++ v.shown) :: shownFields fs

end

def text? : Value → Option String
  | text s => some s
  | _ => none

def plain : Value → String
  | text s => s
  | v => v.shown

/-- What a value means as a truth value: nothing, zero and what is empty are false. -/
def isTrue : Value → Bool
  | null => false
  | bool b => b
  | int n => n != 0
  | float x => !x.isZero
  | text s => !s.isEmpty
  | list items => !items.isEmpty
  | record fields => !fields.isEmpty

/-- Why a value is no integer. -/
inductive IntegerError where
  /-- A text that is no integer. -/
  | text (fault : Text.IntegerFault)
  /-- An infinite number. -/
  | infinite
  /-- An undefined number. -/
  | undefined
  /-- A value of a kind that has no integer. -/
  | wrongKind

/-- The text of the error; a value of the wrong kind is told by its kind alone. -/
def IntegerError.message : IntegerError → String
  | text fault => fault.message
  | infinite => "cannot convert float infinity to integer"
  | undefined => "cannot convert float NaN to integer"
  | wrongKind => ""

/-- The integer that a value means: truth values are 0 and 1, fractions are cut off, texts are
read. -/
def toInteger : Value → Except IntegerError Int
  | int n => .ok n
  | bool b => .ok (if b then 1 else 0)
  | float x => match x with
    | .infinite _ => .error .infinite
    | x => match x.truncate? with
      | some n => .ok n
      | none => .error .undefined
  | text s => (Text.readInteger s).mapError .text
  | _ => .error .wrongKind

/-- How a number compares with an integer. Truth values count as 0 and 1; the inner option is empty
for the undefined number, the outer one for what is no number. -/
def compareInt? (n : Int) : Value → Option (Option Ordering)
  | int m => some (some (compare m n))
  | bool b => some (some (compare (if b then 1 else 0) n))
  | float x => some (x.compareInt? n)
  | _ => none

/-- A value as many times as a number says: texts and lists are repeated, numbers multiplied. Other
values have no multiples. -/
def times? (n : Nat) : Value → Option Value
  | text s => some (text (String.join (List.replicate n s)))
  | list items => some (list (List.replicate n items).flatten)
  | int m => some (int (m * n))
  | bool b => some (int (if b then n else 0))
  | float x => some (float (x.times n))
  | _ => none

/-- The items a value has: those of a list, the names of a record, the characters of a text. -/
def items? : Value → Option (List Value)
  | list items => some items
  | record fields => some (fields.map fun f => text f.1)
  | text s => some (s.toList.map fun c => text (String.singleton c))
  | _ => none

theorem sizeOf_of_get? {name : String} {v w : Value} (h : v.get? name = some w) :
    sizeOf w < sizeOf v := by
  cases v with
  | record fields =>
    obtain ⟨⟨n, u⟩, hf, rfl⟩ := Option.map_eq_some_iff.1 h
    have := List.sizeOf_lt_of_mem (List.mem_of_find?_eq_some hf)
    simp only [Prod.mk.sizeOf_spec] at this
    simp only [record.sizeOf_spec]
    omega
  | _ => cases h

end Value

/-! ## Leaves -/

/-- A type whose members stand for text in a tree. -/
class Leaf (τ : Type) where
  /-- The data value that a leaf is. -/
  value : τ → Value
  /-- The leaf that a text is. -/
  ofText : String → τ

instance : Leaf String := ⟨.text, id⟩

instance : Leaf Value := ⟨id, .text⟩

namespace Leaf

def text? [Leaf τ] (leaf : τ) : Option String := (value leaf).text?

def plain [Leaf τ] (leaf : τ) : String := (value leaf).plain

def shown [Leaf τ] (leaf : τ) : String := (value leaf).shown

@[simp] theorem text?_string (s : String) : text? s = some s := rfl

end Leaf

end MailFilter
