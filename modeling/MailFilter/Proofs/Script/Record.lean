import MailFilter.Proofs.Result
import MailFilter.Proofs.Script.Outline
import MailFilter.Proofs.Script.Texts
import MailFilter.Proofs.Value.Json
import MailFilter.Script.Record

/-!
# Trees from records

A tree of text that is written as a record is read back from it.  What comes back has the same texts,
the same forms of strings, and the places of arguments, tests and commands; it has no offsets, and no
places of comments and blocks.
-/

namespace MailFilter

open Value (text list record int)

variable {α : Type}

/-! ## What comes back -/

section Rebuilt

variable [Located α]

/-- What a record keeps of a mark. -/
def recorded (m : α) : Location := ⟨(Located.location m).line, (Located.location m).column, 0⟩

def Comment.rebuilt (c : Comment) : Comment := ⟨c.text, .nowhere⟩

def Head.rebuilt (h : Head α) : Head Location :=
  ⟨h.name, Argument.mapAll recorded id h.arguments, h.comments.map Comment.rebuilt, recorded h.mark⟩

mutual

def Command.rebuilt : Command α → Command Location
  | .simple head => .simple head.rebuilt
  | .control head commands trailing _ =>
    .control head.rebuilt (Command.rebuiltAll commands) (trailing.map Comment.rebuilt) .nowhere

def Command.rebuiltAll : List (Command α) → List (Command Location)
  | [] => []
  | c :: cs => c.rebuilt :: Command.rebuiltAll cs

end

def Block.rebuilt (b : Block α) : Block Location :=
  ⟨Command.rebuiltAll b.commands, b.trailing.map Comment.rebuilt, .nowhere⟩

/-- A script as its record gives it back. -/
def Script.rebuilt (s : Script α) : Script Location :=
  ⟨s.block.rebuilt, s.capabilities, s.filename, .nowhere⟩

end Rebuilt

/-! ## What can be written -/

section Exact

variable [Located α]

/-- A mark of a place that JSON gives back. -/
def IsExactMark (m : α) : Prop := (Located.location m).line.IsExact ∧ (Located.location m).column.IsExact

mutual

/-- An argument that is one, whose numbers JSON gives back. -/
def Argument.IsExact : Argument α → Prop
  | .string _ _ m | .strings _ m | .tag _ m => IsExactMark m
  | .number value _ m => (int value).IsExact ∧ IsExactMark m
  | .test t => t.IsExact
  | .foreign _ => False

def Test.IsExact : Test α → Prop
  | .mk _ arguments tests m =>
    Argument.AllExact arguments ∧ Argument.AllExact tests ∧ IsExactMark m

def Argument.AllExact : List (Argument α) → Prop
  | [] => True
  | a :: as => a.IsExact ∧ Argument.AllExact as

end

def Head.IsExact (h : Head α) : Prop := Argument.AllExact h.arguments ∧ IsExactMark h.mark

mutual

def Command.IsExact : Command α → Prop
  | .simple head => head.IsExact
  | .control head commands _ _ => head.IsExact ∧ Command.AllExact commands

def Command.AllExact : List (Command α) → Prop
  | [] => True
  | c :: cs => c.IsExact ∧ Command.AllExact cs

end

/-- A script that is made of nodes, whose numbers JSON gives back. -/
def Script.IsExact (s : Script α) : Prop := Command.AllExact s.commands

end Exact

/-! ## Arguments -/

theorem allExact_texts (texts : List String) : Value.AllExact (texts.map text) := by
  induction texts with
  | nil => exact trivial
  | cons s texts ih => exact ⟨trivial, ih⟩

theorem Argument.fieldOfValue_of_get? {v : Value} {name : String} {items : List Value}
    (h : v.get? name = some (list items)) : fieldOfValue v name = ofValues items := by
  rw [fieldOfValue]
  split
  · next hnone => rw [h] at hnone; cases hnone
  · next hsome => rw [h] at hsome; cases hsome; rfl
  · next hne hsome => rw [h] at hsome; cases hsome; exact (hne items rfl).elim

section Arguments

variable [Located α]

mutual

theorem Argument.ofValue_toValue : ∀ a : Argument α, a.IsExact →
    ∃ v, a.toValue = .ok v ∧ v.IsExact ∧ Argument.ofValue v = .ok (a.map recorded text)
  | .string value form m, h => by
      have hnames : ["_type", "value", "form", "line", "column"].Nodup := by decide
      refine ⟨_, rfl, ⟨hnames, trivial, trivial, trivial, h.1, h.2, trivial⟩, ?_⟩
      rw [Argument.ofValue]
      cases form <;> rfl
  | .strings values m, h => by
      have hnames : ["_type", "values", "line", "column"].Nodup := by decide
      refine ⟨_, rfl, ⟨hnames, trivial, allExact_texts values, h.1, h.2, trivial⟩, ?_⟩
      rw [Argument.ofValue]
      rfl
  | .number value unit m, h => by
      have hnames : ["_type", "value", "unit", "line", "column"].Nodup := by decide
      refine ⟨_, rfl, ⟨hnames, trivial, h.1, trivial, h.2.1, h.2.2, trivial⟩, ?_⟩
      rw [Argument.ofValue]
      cases unit <;> rfl
  | .tag name m, h => by
      have hnames : ["_type", "name", "line", "column"].Nodup := by decide
      refine ⟨_, rfl, ⟨hnames, trivial, trivial, h.1, h.2, trivial⟩, ?_⟩
      rw [Argument.ofValue]
      rfl
  | .test t, h => Test.ofValue_toValue t h
  | .foreign _, h => h.elim

theorem Test.ofValue_toValue : ∀ t : Test α, t.IsExact →
    ∃ v, t.toValue = .ok v ∧ v.IsExact ∧
      Argument.ofValue v = .ok (.test (Argument.mapTest recorded text t))
  | .mk name as ts m, h => by
      obtain ⟨vs, hvs, hvsExact, has⟩ := Argument.ofValues_toValues as h.1
      obtain ⟨ws, hws, hwsExact, hts⟩ := Argument.ofValues_toValues ts h.2.1
      have hnames : ["_type", "name", "arguments", "tests", "line", "column"].Nodup := by decide
      refine ⟨record ([("_type", text "test"), ("name", text name), ("arguments", list vs),
          ("tests", list ws)] ++ placeFields m), by rw [Test.toValue, hvs, hws]; rfl,
        ⟨hnames, trivial, trivial, hvsExact, hwsExact, h.2.2.1, h.2.2.2, trivial⟩, ?_⟩
      generalize hv : record ([("_type", text "test"), ("name", text name), ("arguments", list vs),
        ("tests", list ws)] ++ placeFields m) = v
      have harguments : v.get? "arguments" = some (list vs) := by rw [← hv]; rfl
      have htests : v.get? "tests" = some (list ws) := by rw [← hv]; rfl
      rw [Argument.ofValue, Argument.fieldOfValue_of_get? harguments, has,
        Argument.fieldOfValue_of_get? htests, hts, ← hv]
      rfl

theorem Argument.ofValues_toValues : ∀ as : List (Argument α), Argument.AllExact as →
    ∃ vs, Argument.toValues as = .ok vs ∧ Value.AllExact vs ∧
      Argument.ofValues vs = .ok (Argument.mapAll recorded text as)
  | [], _ => ⟨[], rfl, trivial, by rw [Argument.ofValues]; rfl⟩
  | a :: as, h => by
      obtain ⟨v, hv, hvExact, ha⟩ := Argument.ofValue_toValue a h.1
      obtain ⟨vs, hvs, hvsExact, has⟩ := Argument.ofValues_toValues as h.2
      refine ⟨v :: vs, by rw [Argument.toValues, hv, hvs]; rfl, ⟨hvExact, hvsExact⟩, ?_⟩
      rw [Argument.ofValues, ha, has]
      rfl

end

end Arguments

/-! ## Commands -/

theorem Argument.mapAll_recorded [Located α] (as : List (Argument α)) :
    mapAll id text (mapAll recorded id as) = mapAll recorded text as :=
  mapAll_mapAll recorded id id text as

theorem commentsField_of_get? {v : Value} {name : String} {cs : List Comment}
    (h : v.get? name = some (commentTexts cs)) :
    commentsField v name = .ok ((cs.map Comment.rebuilt).map (·.map text)) := by
  rw [commentsField, h]
  change Except.ok ((cs.map (text ·.text)).map _) = Except.ok _
  rw [List.map_map, List.map_map]
  rfl

theorem isExact_commentTexts (cs : List Comment) : (commentTexts cs).IsExact := by
  have h := allExact_texts (cs.map (·.text))
  rwa [List.map_map] at h

theorem isExact_blockRecord {vs : List Value} (h : Value.AllExact vs) (trailing : List Comment) :
    (blockRecord vs trailing).IsExact := by
  have hnames : ["_type", "commands", "trailing_comments"].Nodup := by decide
  exact ⟨hnames, trivial, h, isExact_commentTexts trailing, trivial⟩

section Commands

variable [Located α]

/-- The fields of a head, given its arguments as records. -/
def Head.recordFields (h : Head α) (arguments : List Value) : List (String × Value) :=
  [("_type", text "command"), ("name", text h.name), ("arguments", list arguments),
    ("comments", commentTexts h.comments)] ++ placeFields h.mark

theorem Head.exists_toFields {h : Head α} (hexact : h.IsExact) :
    ∃ vs, h.toFields = .ok (h.recordFields vs) ∧ Value.AllExact vs ∧
      Argument.ofValues vs = .ok (Argument.mapAll recorded text h.arguments) := by
  obtain ⟨vs, hvs, hexact, has⟩ := Argument.ofValues_toValues h.arguments hexact.1
  exact ⟨vs, by rw [Head.toFields, hvs]; rfl, hexact, has⟩

theorem Head.ofValue_of_get? {h : Head α} {vs : List Value} {v : Value}
    (hvs : Argument.ofValues vs = .ok (Argument.mapAll recorded text h.arguments))
    (hname : v.get? "name" = some (text h.name)) (harguments : v.get? "arguments" = some (list vs))
    (hcomments : v.get? "comments" = some (commentTexts h.comments))
    (hplace : locationOf v = recorded h.mark) :
    Head.ofValue v = .ok (h.rebuilt.map id text) := by
  rw [Head.ofValue, needField, hname, Argument.fieldOfValue_of_get? harguments, hvs,
    commentsField_of_get? hcomments, hplace, ← Argument.mapAll_recorded]
  rfl

theorem fieldsExact_recordFields {h : Head α} (hexact : h.IsExact) {vs : List Value}
    (hvs : Value.AllExact vs) (fields : List (String × Value)) (hfields : Value.FieldsExact fields) :
    Value.FieldsExact (h.recordFields vs ++ fields) := by
  exact ⟨trivial, trivial, hvs, isExact_commentTexts h.comments, hexact.2.1, hexact.2.2, hfields⟩

theorem Block.ofValue_blockRecord {vs : List Value} {cs : List (Command Location Value)}
    (h : Command.ofValues vs = .ok cs) (trailing : List Comment) :
    Block.ofValue (blockRecord vs trailing) =
      .ok ⟨cs, (trailing.map Comment.rebuilt).map (·.map text), .nowhere⟩ := by
  have htrailing : (blockRecord vs trailing).get? "trailing_comments" = some (commentTexts trailing) := rfl
  rw [Block.ofValue, commentsField_of_get? htrailing]
  change (Command.ofValues vs >>= fun cs => Except.ok (Block.mk cs _ _)) = _
  rw [h]
  rfl

mutual

theorem Command.ofValue_toValue : ∀ c : Command α, c.IsExact →
    ∃ v, c.toValue = .ok v ∧ v.IsExact ∧ Command.ofValue v = .ok (c.rebuilt.map id text)
  | .simple head, h => by
      obtain ⟨vs, hfields, hvsExact, hvs⟩ := Head.exists_toFields h
      have hnames : ["_type", "name", "arguments", "comments", "line", "column"].Nodup := by decide
      have hexact := fieldsExact_recordFields h hvsExact [] trivial
      rw [List.append_nil] at hexact
      refine ⟨record (head.recordFields vs), by rw [Command.toValue, hfields]; rfl,
        ⟨hnames, hexact⟩, ?_⟩
      have hread := Head.ofValue_of_get? (v := record (head.recordFields vs)) hvs rfl rfl rfl rfl
      rw [Command.ofValue]
      change (Head.ofValue (record (head.recordFields vs)) >>= fun h => Except.ok (Command.simple h)) = _
      rw [hread]
      rfl
  | .control head cs trailing _, h => by
      obtain ⟨vs, hfields, hvsExact, hvs⟩ := Head.exists_toFields h.1
      obtain ⟨ws, hws, hwsExact, hcs⟩ := Command.ofValues_toValues cs h.2
      have hnames : ["_type", "name", "arguments", "comments", "line", "column", "block"].Nodup := by
        decide
      have hblock := isExact_blockRecord hwsExact trailing
      have hexact := fieldsExact_recordFields h.1 hvsExact [("block", blockRecord ws trailing)]
        ⟨hblock, trivial⟩
      refine ⟨record (head.recordFields vs ++ [("block", blockRecord ws trailing)]),
        by rw [Command.toValue, hfields, hws]; rfl, ⟨hnames, hexact⟩, ?_⟩
      have hread := Head.ofValue_of_get?
        (v := record (head.recordFields vs ++ [("block", blockRecord ws trailing)])) hvs rfl rfl rfl rfl
      have hread' := Block.ofValue_blockRecord hcs trailing
      rw [Command.ofValue]
      change (Block.ofValue (blockRecord ws trailing) >>= fun b =>
        Head.ofValue (record (head.recordFields vs ++ [("block", blockRecord ws trailing)])) >>= fun h =>
          Except.ok (Command.ofParts h (some b))) = _
      rw [hread', hread]
      rfl

theorem Command.ofValues_toValues : ∀ cs : List (Command α), Command.AllExact cs →
    ∃ vs, Command.toValues cs = .ok vs ∧ Value.AllExact vs ∧
      Command.ofValues vs = .ok (Command.mapAll id text (Command.rebuiltAll cs))
  | [], _ => ⟨[], rfl, trivial, by rw [Command.ofValues]; rfl⟩
  | c :: cs, h => by
      obtain ⟨v, hv, hvExact, hc⟩ := Command.ofValue_toValue c h.1
      obtain ⟨vs, hvs, hvsExact, hcs⟩ := Command.ofValues_toValues cs h.2
      refine ⟨v :: vs, by rw [Command.toValues, hv, hvs]; rfl, ⟨hvExact, hvsExact⟩, ?_⟩
      rw [Command.ofValues, hc, hcs]
      rfl

end

/-- The record of a script is read as the script that it keeps. -/
theorem Script.ofValue_toValue {s : Script α} (h : s.IsExact) :
    ∃ v, s.toValue = .ok v ∧ v.IsExact ∧ Script.ofValue v = .ok s.rebuilt.data := by
  obtain ⟨vs, hvs, hvsExact, hcs⟩ := Command.ofValues_toValues s.commands h
  have hnames : ["_type", "filename", "capabilities", "block"].Nodup := by decide
  have hblock := isExact_blockRecord hvsExact s.block.trailing
  refine ⟨record [("_type", .text "script"), ("filename", .text s.filename),
      ("capabilities", list (s.capabilities.map .text)), ("block", blockRecord vs s.block.trailing)],
    ?_, ⟨hnames, trivial, trivial, allExact_texts s.capabilities, hblock, trivial⟩, ?_⟩
  · rw [toValue, Block.toValue, show Command.toValues s.block.commands = .ok vs from hvs]
    rfl
  · rw [ofValue]
    change (Block.ofValue (blockRecord vs s.block.trailing) >>= fun b =>
      Except.ok (Script.mk b (s.capabilities.map .text) (.text s.filename) .nowhere)) = _
    rw [Block.ofValue_blockRecord hcs s.block.trailing]
    rfl

end Commands

end MailFilter
