import MailFilter.Value.Yaml.Scalar
import MailFilter.Value.Yaml.Token

/-!
# Settings documents

A text as one document in YAML, and the value that it holds. A list may stand in a record without
being further in. Names of fields that are no texts count as the texts that messages show for them,
and of two fields of one name the later counts.
-/

namespace MailFilter.Value.Yaml

/-- What reads tokens: the value, and the tokens after it. -/
abbrev Reader (α : Type) := List Token → Except Fault (α × List Token)

/-- The name of a field. Lists and records are none, nor are the signs that stand for merging and
for a default value. -/
def fieldName : Value → Except Fault String
  | .list _ | .record _ => .error .malformed
  | v => .ok v.plain

/-- What a scalar stands for. The sign for a default value stands for nothing that is known. -/
def scalarValue (s : String) (plain : Bool) : Except Fault Value :=
  if !plain then .ok (.text s)
  else if s == "=" || s == "<<" then .error .malformed
  else .ok (resolve s)

/-- What is wrong with the scalar that a token is. -/
def Token.fault? : Token → Option ScalarFault
  | .scalar s true => scalarFault? s
  | _ => none

/-- Whether a token may follow a name or a colon when nothing else is written. -/
def endsField : List Token → Bool
  | .key :: _ | .value :: _ | .blockEnd :: _ => true
  | _ => false

/-- Whether a token may follow a dash when nothing else is written. -/
def endsEntry : List Token → Bool
  | .entry :: _ | .blockEnd :: _ => true
  | ts => endsField ts

/-- Whether a token ends a field between brackets. -/
def endsFlowField : List Token → Bool
  | .value :: _ | .comma :: _ | .flowRecordEnd :: _ | .flowListEnd :: _ => true
  | _ => false

mutual

/-- A value: a scalar, a list or a record. Blocks are read only where `block` holds. -/
def node (block : Bool) : Nat → Reader Value
  | 0, _ => .error .malformed
  | fuel + 1, ts =>
    match ts with
    | .scalar s plain :: ts => (scalarValue s plain).map (·, ts)
    | .flowList :: ts => (flowItems true fuel ts).map fun (vs, ts) => (.list vs, ts)
    | .flowRecord :: ts => (flowFields true fuel ts).map fun (fs, ts) => (ofFields fs, ts)
    | .blockList :: ts =>
      if block then (entries fuel ts).map fun (vs, ts) => (.list vs, ts) else .error .malformed
    | .blockRecord :: ts =>
      if block then (fields fuel ts).map fun (fs, ts) => (ofFields fs, ts) else .error .malformed
    | _ => .error .malformed

def entries : Nat → Reader (List Value)
  | 0, _ => .error .malformed
  | fuel + 1, ts =>
    match ts with
    | .blockEnd :: ts => .ok ([], ts)
    | .entry :: ts => do
      let (v, ts) ← match ts with
        | .entry :: _ | .blockEnd :: _ => pure (.null, ts)
        | ts => node true fuel ts
      let (vs, ts) ← entries fuel ts
      return (v :: vs, ts)
    | _ => .error .malformed

/-- The entries of a list that stands in a record and is not further in. -/
def looseEntries : Nat → Reader (List Value)
  | 0, _ => .error .malformed
  | fuel + 1, ts =>
    match ts with
    | .entry :: ts => do
      let (v, ts) ← if endsEntry ts then pure (.null, ts) else node true fuel ts
      let (vs, ts) ← looseEntries fuel ts
      return (v :: vs, ts)
    | ts => .ok ([], ts)

/-- A name or a value in a block record, which may be missing. -/
def part : Nat → Reader Value
  | 0, _ => .error .malformed
  | fuel + 1, ts =>
    if endsField ts then .ok (.null, ts)
    else match ts with
      | .entry :: _ => (looseEntries fuel ts).map fun (vs, ts) => (.list vs, ts)
      | ts => node true fuel ts

def fields : Nat → Reader (List (String × Value))
  | 0, _ => .error .malformed
  | fuel + 1, ts => do
    match ts with
    | .blockEnd :: ts => return ([], ts)
    | .key :: ts =>
      let (name, ts) ← part fuel ts
      let name ← fieldName name
      let (v, ts) ← match ts with
        | .value :: ts => part fuel ts
        | ts => pure (.null, ts)
      let (fs, ts) ← fields fuel ts
      return ((name, v) :: fs, ts)
    | _ => throw .malformed

/-- The value after a name between brackets, which may be missing. -/
def flowValue : Nat → Reader Value
  | 0, _ => .error .malformed
  | fuel + 1, ts =>
    match ts with
    | .value :: ts => if endsFlowField ts then .ok (.null, ts) else node false fuel ts
    | ts => .ok (.null, ts)

/-- The items of a list between brackets, up to its end. An item may be a record of one field. -/
def flowItems (first : Bool) : Nat → Reader (List Value)
  | 0, _ => .error .malformed
  | fuel + 1, ts => do
    match ts with
    | .flowListEnd :: ts => return ([], ts)
    | ts =>
      let ts ← match first, ts with
        | true, ts => pure ts
        | false, .comma :: ts => pure ts
        | false, _ => throw .malformed
      match ts with
      | .flowListEnd :: ts => return ([], ts)
      | .key :: ts =>
        let (name, ts) ← if endsFlowField ts then pure (.null, ts) else node false fuel ts
        let name ← fieldName name
        let (v, ts) ← flowValue fuel ts
        let (vs, ts) ← flowItems false fuel ts
        return (ofFields [(name, v)] :: vs, ts)
      | ts =>
        let (v, ts) ← node false fuel ts
        let (vs, ts) ← flowItems false fuel ts
        return (v :: vs, ts)

/-- The fields of a record between brackets, up to its end. -/
def flowFields (first : Bool) : Nat → Reader (List (String × Value))
  | 0, _ => .error .malformed
  | fuel + 1, ts => do
    match ts with
    | .flowRecordEnd :: ts => return ([], ts)
    | ts =>
      let ts ← match first, ts with
        | true, ts => pure ts
        | false, .comma :: ts => pure ts
        | false, _ => throw .malformed
      match ts with
      | .flowRecordEnd :: ts => return ([], ts)
      | .key :: ts =>
        let (name, ts) ← if endsFlowField ts then pure (.null, ts) else node false fuel ts
        let name ← fieldName name
        let (v, ts) ← flowValue fuel ts
        let (fs, ts) ← flowFields false fuel ts
        return ((name, v) :: fs, ts)
      | ts =>
        let (name, ts) ← node false fuel ts
        let name ← fieldName name
        let (fs, ts) ← flowFields false fuel ts
        return ((name, .null) :: fs, ts)

end

/-- The document that tokens make. A document without anything in it is null; two documents are
none. -/
def document (ts : List Token) : Except Fault Value :=
  let fuel := 2 * ts.length + 2
  let content : Reader Value := fun ts =>
    match ts with
    | [] | .documentStart :: _ | .documentEnd :: _ => .ok (.null, ts)
    | ts => node true fuel ts
  do
    let (v, rest) ← match ts with
      | [] => pure (.null, [])
      | .documentStart :: ts => content ts
      | ts => node true fuel ts
    if (rest.dropWhile (· == .documentEnd)).isEmpty then return v else throw .malformed

end Yaml

/-- Reads a text that is one document in YAML. What is wrong with its scalars is told only where
nothing else is. -/
def ofYaml (cs : List Char) : Except Yaml.Fault Value := do
  let ts ← Yaml.tokens cs
  let v ← Yaml.document ts
  match ts.findSome? Yaml.Token.fault? with
  | some fault => throw (.scalar fault)
  | none => return v

end MailFilter.Value
