import MailFilter.Script.Data
import MailFilter.Value.Json

/-!
# Scripts as data values

A tree as nested records, and back. A record names its kind in the field `_type`; what other fields
it has depends on that. Offsets do not appear in records. Reading takes any value for a text and for
a place: what is read is a tree of data.
-/

namespace MailFilter

open Value (text list record int)

/-! ## Writing -/

def Location.fields (l : Location) : List (String × Value) := [("line", l.line), ("column", l.column)]

def placeFields [Located α] (mark : α) : List (String × Value) := (Located.location mark).fields

mutual

/-- An argument as a record. What is no argument is given back as it is shown. -/
def Argument.toValue [Located α] [Leaf τ] : Argument α τ → Except String Value
  | .string value form m =>
    .ok (record ([("_type", text "string"), ("value", Leaf.value value), ("form", text form.text)] ++
      placeFields m))
  | .strings values m =>
    .ok (record ([("_type", text "string_list"), ("values", list (values.map Leaf.value))] ++
      placeFields m))
  | .number value unit m =>
    .ok (record ([("_type", text "number"), ("value", int value), ("unit", text unit.text)] ++
      placeFields m))
  | .tag name m => .ok (record ([("_type", text "tag"), ("name", Leaf.value name)] ++ placeFields m))
  | .test t => Test.toValue t
  | .foreign shown => .error shown

def Test.toValue [Located α] [Leaf τ] : Test α τ → Except String Value
  | .mk name arguments tests m => do
    let arguments ← Argument.toValues arguments
    let tests ← Argument.toValues tests
    return record ([("_type", text "test"), ("name", Leaf.value name), ("arguments", list arguments),
      ("tests", list tests)] ++ placeFields m)

def Argument.toValues [Located α] [Leaf τ] : List (Argument α τ) → Except String (List Value)
  | [] => .ok []
  | a :: as => do return (← a.toValue) :: (← Argument.toValues as)

end

def commentTexts [Leaf τ] (comments : List (Comment τ)) : Value :=
  list (comments.map (Leaf.value ·.text))

def Head.toFields [Located α] [Leaf τ] (h : Head α τ) : Except String (List (String × Value)) := do
  return [("_type", text "command"), ("name", Leaf.value h.name),
    ("arguments", list (← Argument.toValues h.arguments)),
    ("comments", commentTexts h.comments)] ++ placeFields h.mark

/-- A block as a record, given its commands as records. -/
def blockRecord [Leaf τ] (commands : List Value) (trailing : List (Comment τ)) : Value :=
  record [("_type", text "block"), ("commands", list commands),
    ("trailing_comments", commentTexts trailing)]

mutual

def Command.toValue [Located α] [Leaf τ] : Command α τ → Except String Value
  | .simple head => return record (← head.toFields)
  | .control head commands trailing _ => do
    let fields ← head.toFields
    let commands ← Command.toValues commands
    return record (fields ++ [("block", blockRecord commands trailing)])

def Command.toValues [Located α] [Leaf τ] : List (Command α τ) → Except String (List Value)
  | [] => .ok []
  | c :: cs => do return (← c.toValue) :: (← Command.toValues cs)

end

def Block.toValue [Located α] [Leaf τ] (b : Block α τ) : Except String Value := do
  return blockRecord (← Command.toValues b.commands) b.trailing

def Script.toValue [Located α] [Leaf τ] (s : Script α τ) : Except String Value := do
  return record [("_type", .text "script"), ("filename", .text (Leaf.plain s.filename)),
    ("capabilities", list (s.capabilities.map Leaf.value)), ("block", ← s.block.toValue)]

def cannotSerialize (shown : String) : String := "Cannot serialize argument " ++ shown

def Script.toJson [Located α] [Leaf τ] (s : Script α τ) : Except String String := do return (← s.toValue).json

/-! ## Reading -/

/-- Why a value is no node of a tree. -/
inductive NodeError where
  /-- A node of another kind, or no record at all, as messages show it. -/
  | otherNode (expected found : String)
  /-- An argument that is no record but of the kind. -/
  | noRecord (kind : String)
  | unknownType (found : Value)
  | unknownUnit (found : Value)
  | unknownForm (found : Value)
  | missing (field : String)
  | integer (error : Value.IntegerError)
  /-- A field of a kind that it cannot have. -/
  | wrongKind

def NodeError.message : NodeError → String
  | otherNode expected found => "Expected a '" ++ expected ++ "' node, got " ++ found
  | noRecord kind => "Expected an argument dict, got " ++ kind
  | unknownType found => "Unknown argument type " ++ found.shown
  | unknownUnit found => "Unknown number unit " ++ found.shown
  | unknownForm found => found.shown ++ " is not a valid StringForm"
  | missing field => Text.quoted field
  | integer error => error.message
  | wrongKind => ""

def expectType (v : Value) (type : String) : Except NodeError Unit :=
  let found := (v.get? "_type").getD .null
  match v, found with
  | record _, text t => if t == type then .ok () else .error (.otherNode type found.shown)
  | record _, found => .error (.otherNode type found.shown)
  | v, _ => .error (.otherNode type (Text.quoted v.kindName))

def needField (v : Value) (name : String) : Except NodeError Value :=
  match v.get? name with
  | some w => .ok w
  | none => .error (.missing name)

def locationOf (v : Value) : Location :=
  ⟨(v.get? "line").getD (int 0), (v.get? "column").getD (int 0), 0⟩

def listOf (v : Value) : Except NodeError (List Value) :=
  match v.items? with
  | some items => .ok items
  | none => .error .wrongKind

/-- The comments in a field, none if it is missing. -/
def commentsField (v : Value) (name : String) : Except NodeError (List (Comment Value)) := do
  match v.get? name with
  | none => return []
  | some w => return (← listOf w).map (⟨·, .nowhere⟩)

def formField (v : Value) : Except NodeError StringForm :=
  match (v.get? "form").getD (text "quoted") with
  | text "quoted" => .ok .quoted
  | text "multiline" => .ok .multiline
  | found => .error (.unknownForm found)

def unitField (v : Value) : Except NodeError NumberUnit :=
  match (v.get? "unit").getD (text "") with
  | text s => match NumberUnit.ofText? s with
    | some unit => .ok unit
    | none => .error (.unknownUnit (text s))
  | list _ | record _ => .error .wrongKind
  | found => .error (.unknownUnit found)

/-- What stands where a list of arguments is expected and is no list. -/
def noArguments (v : Value) : Except NodeError (List (Argument Location Value)) :=
  match v.items? with
  | some [] => .ok []
  | some (item :: _) => .error (.noRecord item.kindName)
  | none => .error .wrongKind

def argumentType (v : Value) : Except NodeError Value :=
  match v with
  | record _ => .ok ((v.get? "_type").getD .null)
  | v => .error (.noRecord v.kindName)

mutual

def Argument.ofValue (v : Value) : Except NodeError (Argument Location Value) := do
  match ← argumentType v with
  | text "string" =>
    let value ← needField v "value"
    return .string value (← formField v) (locationOf v)
  | text "string_list" =>
    let values ← listOf (← needField v "values")
    return .strings values (locationOf v)
  | text "number" =>
    let unit ← unitField v
    match (← needField v "value").toInteger with
    | .ok n => return .number n unit (locationOf v)
    | .error e => throw (.integer e)
  | text "tag" =>
    let name ← needField v "name"
    return .tag name (locationOf v)
  | text "test" =>
    let name ← needField v "name"
    let arguments ← Argument.fieldOfValue v "arguments"
    let tests ← Argument.fieldOfValue v "tests"
    return .test (.mk name arguments tests (locationOf v))
  | found => throw (.unknownType found)
termination_by (sizeOf v, 1)

/-- The arguments in a field, none if it is missing. -/
def Argument.fieldOfValue (v : Value) (name : String) :
    Except NodeError (List (Argument Location Value)) :=
  match _h : v.get? name with
  | none => .ok []
  | some (list items) => Argument.ofValues items
  | some w => noArguments w
termination_by (sizeOf v, 0)
decreasing_by
  have := Value.sizeOf_of_get? _h
  simp only [list.sizeOf_spec] at this
  exact .left _ _ (by omega)

def Argument.ofValues (vs : List Value) : Except NodeError (List (Argument Location Value)) := do
  match vs with
  | [] => return []
  | v :: vs => return (← Argument.ofValue v) :: (← Argument.ofValues vs)
termination_by (sizeOf vs, 0)

end

def Head.ofValue (v : Value) : Except NodeError (Head Location Value) := do
  let name ← needField v "name"
  let arguments ← Argument.fieldOfValue v "arguments"
  let comments ← commentsField v "comments"
  return ⟨name, arguments, comments, locationOf v⟩

/-- What stands where a list of commands is expected and is no list. -/
def noCommands (v : Value) : Except NodeError (List (Command Location Value)) :=
  match v.items? with
  | some [] => .ok []
  | some (item :: _) => do expectType item "command"; throw .wrongKind
  | none => .error .wrongKind

mutual

def Command.ofValue (v : Value) : Except NodeError (Command Location Value) := do
  expectType v "command"
  match _h : v.get? "block" with
  | none | some .null => return .simple (← Head.ofValue v)
  | some w =>
    let b ← Block.ofValue w
    return .ofParts (← Head.ofValue v) (some b)
termination_by (sizeOf v, 0)
decreasing_by exact .left _ _ (Value.sizeOf_of_get? _h)

def Block.ofValue (v : Value) : Except NodeError (Block Location Value) := do
  expectType v "block"
  let commands ← match _h : v.get? "commands" with
    | none => pure []
    | some (list items) => Command.ofValues items
    | some w => noCommands w
  return ⟨commands, ← commentsField v "trailing_comments", .nowhere⟩
termination_by (sizeOf v, 0)
decreasing_by
  have := Value.sizeOf_of_get? _h
  simp only [list.sizeOf_spec] at this
  exact .left _ _ (by omega)

def Command.ofValues (vs : List Value) : Except NodeError (List (Command Location Value)) := do
  match vs with
  | [] => return []
  | v :: vs => return (← Command.ofValue v) :: (← Command.ofValues vs)
termination_by (sizeOf vs, 0)

end

def Script.ofValue (v : Value) : Except NodeError (Script Location Value) := do
  expectType v "script"
  let block ← Block.ofValue (← needField v "block")
  let capabilities ← listOf ((v.get? "capabilities").getD (list []))
  return ⟨block, capabilities, (v.get? "filename").getD (.text "<unknown>"), .nowhere⟩

/-! ## Counting -/

namespace Value

def nodeFields : List String := ["block", "commands", "arguments", "tests"]

mutual

/-- How many nodes fields hold that have the names of such. -/
def nodeCountFields : List (String × Value) → Nat
  | [] => 0
  | (name, v) :: fields =>
    (if nodeFields.contains name then v.nodeCountIn else 0) + nodeCountFields fields

/-- How many nodes a field holds: records, on their own or in a list. -/
def nodeCountIn : Value → Nat
  | record fields => 1 + nodeCountFields fields
  | list items => nodeCountItems items
  | _ => 0

/-- How many nodes the items of a list hold that are records. -/
def nodeCountItems : List Value → Nat
  | [] => 0
  | record fields :: items => 1 + nodeCountFields fields + nodeCountItems items
  | _ :: items => nodeCountItems items

end

def hasInfix (part : List Char) : List Char → Bool
  | [] => part.isEmpty
  | c :: cs => part.isPrefixOf (c :: cs) || hasInfix part cs

/-- How many nodes a record of a node has. A text or a list that mentions no field counts as one;
other values have no fields to look for. -/
def nodeCount? : Value → Option Nat
  | record fields => some (1 + nodeCountFields fields)
  | text s => if nodeFields.any fun name => hasInfix name.toList s.toList then none else some 1
  | list items =>
    if items.any fun v => v.text?.any nodeFields.contains then none else some 1
  | _ => none

end Value

end MailFilter
