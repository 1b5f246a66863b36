import MailFilter.Proofs.Layout.Outline
import MailFilter.Proofs.Script.Record

/-!
# What a record keeps

A script that is read from its record has the same record and the same outline.  So it means the same,
and it is written alike under every layout, as a tree of text and as data.
-/

namespace MailFilter

open Value (text)

variable {α β : Type}

/-! ## Outlines -/

section Marks

variable (f : α → β)

mutual

theorem Argument.outline_map : ∀ a : Argument α, (a.map f id).outline = a.outline
  | .string .. | .number .. | .tag .. | .foreign .. => rfl
  | .strings values m => by simp only [Argument.map, Argument.outline, List.map_id]
  | .test t => congrArg Argument.test (Test.outline_map t)

theorem Test.outline_map : ∀ t : Test α, (Argument.mapTest f id t).outline = t.outline
  | .mk name as ts m => by
      rw [Argument.mapTest, Test.outline, Test.outline, Argument.outlineAll_mapAll as,
        Argument.outlineAll_mapAll ts, id_eq]

theorem Argument.outlineAll_mapAll : ∀ as : List (Argument α),
    Argument.outlineAll (Argument.mapAll f id as) = Argument.outlineAll as
  | [] => rfl
  | a :: as => by
      rw [Argument.mapAll, Argument.outlineAll, Argument.outlineAll, Argument.outline_map a,
        Argument.outlineAll_mapAll as]

end

variable (g : List String → List String)

theorem Comment.map_id (cs : List Comment) : cs.map (·.map id) = cs := List.map_id cs

theorem Head.outline_map (h : Head α) : (h.map f id).outline g = h.outline g := by
  rw [Head.map, Head.outline, Head.outline, Argument.outlineAll_mapAll, Comment.map_id, id_eq]

mutual

theorem Command.outline_map : ∀ c : Command α, (c.map f id).outline g = c.outline g
  | .simple h => congrArg Command.simple (Head.outline_map f g h)
  | .control h cs trailing _ => by
      rw [Command.map, Command.outline, Command.outline, Head.outline_map,
        Command.outlineAll_mapAll cs, Comment.map_id]

theorem Command.outlineAll_mapAll : ∀ cs : List (Command α),
    Command.outlineAll g (Command.mapAll f id cs) = Command.outlineAll g cs
  | [] => rfl
  | c :: cs => by
      rw [Command.mapAll, Command.outlineAll, Command.outlineAll, Command.outline_map c,
        Command.outlineAll_mapAll cs]

end

theorem Script.outline_map (s : Script α) : (s.map f id).outline g = s.outline g := by
  rw [Script.outline, Script.outline]
  change Script.mk ⟨Command.outlineAll g (Command.mapAll f id s.commands),
    Comment.outlineAll g (s.block.trailing.map (·.map id)), .nowhere⟩ (s.capabilities.map id) "" .nowhere = _
  rw [Command.outlineAll_mapAll, Comment.map_id, List.map_id]

end Marks

section Rebuilt

variable [Located α] (g : List String → List String)

theorem Comment.outlineAll_rebuilt (cs : List Comment) :
    Comment.outlineAll g (cs.map Comment.rebuilt) = Comment.outlineAll g cs := by
  rw [Comment.outlineAll, Comment.outlineAll, List.map_map]
  rfl

theorem Head.outline_rebuilt (h : Head α) : h.rebuilt.outline g = h.outline g := by
  rw [Head.rebuilt, Head.outline, Head.outline, Argument.outlineAll_mapAll, Comment.outlineAll_rebuilt]

mutual

theorem Command.outline_rebuilt : ∀ c : Command α, c.rebuilt.outline g = c.outline g
  | .simple h => congrArg Command.simple (Head.outline_rebuilt g h)
  | .control h cs trailing _ => by
      rw [Command.rebuilt, Command.outline, Command.outline, Head.outline_rebuilt,
        Command.outlineAll_rebuilt cs, Comment.outlineAll_rebuilt]

theorem Command.outlineAll_rebuilt : ∀ cs : List (Command α),
    Command.outlineAll g (Command.rebuiltAll cs) = Command.outlineAll g cs
  | [] => rfl
  | c :: cs => by
      rw [Command.rebuiltAll, Command.outlineAll, Command.outlineAll, Command.outline_rebuilt c,
        Command.outlineAll_rebuilt cs]

end

theorem Script.outline_rebuilt (s : Script α) : s.rebuilt.outline g = s.outline g := by
  rw [Script.outline, Script.outline]
  change Script.mk ⟨Command.outlineAll g (Command.rebuiltAll s.commands),
    Comment.outlineAll g (s.block.trailing.map Comment.rebuilt), .nowhere⟩ _ "" .nowhere = _
  rw [Command.outlineAll_rebuilt, Comment.outlineAll_rebuilt]
  rfl

end Rebuilt

/-! ## Records -/

section Records

variable [Located α]

mutual

theorem Argument.toValue_recorded : ∀ a : Argument α, (a.map recorded text).toValue = a.toValue
  | .string .. | .number .. | .tag .. | .foreign .. => rfl
  | .strings values m => by
      rw [Argument.map, Argument.toValue, Argument.toValue, List.map_map]
      rfl
  | .test t => Test.toValue_recorded t

theorem Test.toValue_recorded : ∀ t : Test α,
    (Argument.mapTest recorded text t).toValue = t.toValue
  | .mk name as ts m => by
      rw [Argument.mapTest, Test.toValue, Test.toValue, Argument.toValues_recorded as,
        Argument.toValues_recorded ts]
      rfl

theorem Argument.toValues_recorded : ∀ as : List (Argument α),
    Argument.toValues (Argument.mapAll recorded text as) = Argument.toValues as
  | [] => rfl
  | a :: as => by
      rw [Argument.mapAll, Argument.toValues, Argument.toValues, Argument.toValue_recorded a,
        Argument.toValues_recorded as]

end

theorem commentTexts_rebuilt (cs : List Comment) :
    commentTexts ((cs.map Comment.rebuilt).map (·.map text)) = commentTexts cs := by
  rw [commentTexts, commentTexts, List.map_map, List.map_map]
  rfl

theorem blockRecord_rebuilt (vs : List Value) (trailing : List Comment) :
    blockRecord vs ((trailing.map Comment.rebuilt).map (·.map text)) = blockRecord vs trailing := by
  unfold blockRecord
  rw [commentTexts_rebuilt]

theorem Head.toFields_rebuilt (h : Head α) : (h.rebuilt.map id text).toFields = h.toFields := by
  rw [Head.toFields, Head.toFields]
  change (Argument.toValues (Argument.mapAll id text (Argument.mapAll recorded id h.arguments)) >>= fun _ =>
    Except.ok ([_, _, _, ("comments", commentTexts ((h.comments.map Comment.rebuilt).map (·.map text)))] ++ _)) = _
  rw [Argument.mapAll_recorded, Argument.toValues_recorded, commentTexts_rebuilt]
  rfl

mutual

theorem Command.toValue_rebuilt : ∀ c : Command α, (c.rebuilt.map id text).toValue = c.toValue
  | .simple h => by
      rw [Command.rebuilt, Command.map, Command.toValue, Command.toValue, Head.toFields_rebuilt]
  | .control h cs trailing _ => by
      rw [Command.rebuilt, Command.map, Command.toValue, Command.toValue, Head.toFields_rebuilt,
        Command.toValues_rebuilt cs]
      simp only [blockRecord_rebuilt]

theorem Command.toValues_rebuilt : ∀ cs : List (Command α),
    Command.toValues (Command.mapAll id text (Command.rebuiltAll cs)) = Command.toValues cs
  | [] => rfl
  | c :: cs => by
      rw [Command.rebuiltAll, Command.mapAll, Command.toValues, Command.toValues,
        Command.toValue_rebuilt c, Command.toValues_rebuilt cs]

end

theorem Script.toValue_rebuilt (s : Script α) : s.rebuilt.data.toValue = s.toValue := by
  have hblock : s.rebuilt.data.block.toValue = s.block.toValue := by
    rw [Block.toValue, Block.toValue]
    change (Command.toValues (Command.mapAll id Value.text (Command.rebuiltAll s.commands)) >>= fun vs =>
      Except.ok (blockRecord vs ((s.block.trailing.map Comment.rebuilt).map (·.map Value.text)))) = _
    simp only [Command.toValues_rebuilt, blockRecord_rebuilt]
    rfl
  have hcapabilities : s.rebuilt.data.capabilities.map Leaf.value = s.capabilities.map Leaf.value :=
    List.map_map.trans rfl
  rw [Script.toValue, Script.toValue, hblock, hcapabilities]
  rfl

end Records

/-! ## Canonical texts -/

namespace Layout

section Marks

variable (f : α → β)

theorem fitWords_mapAll (name : Value) (as : List (Argument α Value)) :
    fitWords name (Argument.mapAll f id as) = fitWords name as := by
  have hforM : ∀ g : Argument β Value → Fit, (Argument.mapAll f id as).forM g =
      as.forM fun a => g (a.map f id) := by
    intro g
    simp only [Argument.mapAll_eq_map, List.forM_eq_forM, List.forM_map]
  rw [fitWords, fitWords, hforM]
  congr 2
  funext _
  congr 1
  funext a
  cases a <;> rfl

mutual

theorem fitArgument_map : ∀ a : Argument α Value, fitArgument (a.map f id) = fitArgument a
  | .string .. | .number .. | .tag .. | .foreign .. => rfl
  | .strings values m => by rw [Argument.map, List.map_id, fitArgument, fitArgument]
  | .test t => fitTest_mapTest t

theorem fitTest_mapTest : ∀ t : Test α Value, fitTest (Argument.mapTest f id t) = fitTest t
  | .mk name as ts m => by
      rw [Argument.mapTest, fitTest, fitTest, fitArguments_mapAll as, fitWords_mapAll, fitInner_mapAll ts,
        id_eq]

theorem fitArguments_mapAll : ∀ as : List (Argument α Value),
    fitArguments (Argument.mapAll f id as) = fitArguments as
  | [] => rfl
  | a :: as => by
      rw [Argument.mapAll, fitArguments, fitArguments, fitArgument_map a, fitArguments_mapAll as]

theorem fitInner_mapAll : ∀ ts : List (Argument α Value),
    fitInner (Argument.mapAll f id ts) = fitInner ts
  | [] => rfl
  | .test t :: ts => by
      rw [Argument.mapAll, Argument.map, fitInner, fitInner, fitTest_mapTest t, fitInner_mapAll ts]
  | .string .. :: _ | .strings .. :: _ | .number .. :: _ | .tag .. :: _ | .foreign .. :: _ => rfl

end

end Marks

theorem lineup_of_map {β σ τ : Type} [Leaf σ] [Leaf τ] {f : Command α σ → Command β τ}
    {s : Script α σ} {t : Script β τ} (hcommands : t.commands = s.commands.map f)
    (hhead : ∀ c, (f c).head.isBareRequire = c.head.isBareRequire) :
    t.lineup = s.lineup.map fun (holds, c) => (holds, f c) := by
  rw [Script.lineup, Script.lineup, hcommands]
  cases s.commands with
  | nil => rfl
  | cons c cs => simp only [hhead, List.map_cons, List.map_map, Function.comp_def]

theorem lineup_map {β τ : Type} [Leaf τ] (f : α → β) {g : String → τ}
    (hg : ∀ t, Leaf.text? (g t) = some t) (s : Script α) :
    (s.map f g).lineup = s.lineup.map fun (holds, c) => (holds, c.map f g) := by
  refine lineup_of_map (Command.mapAll_eq_map f g s.commands) fun c => ?_
  have hname : (c.map f g).head.name = g c.head.name := by cases c <;> rfl
  have harguments : (c.map f g).head.arguments.isEmpty = c.head.arguments.isEmpty := by
    rcases c with ⟨_, as, _, _⟩ | ⟨⟨_, as, _, _⟩, _, _, _⟩ <;> cases as <;> rfl
  rw [Head.isBareRequire, Head.isBareRequire, harguments, Head.keyword?, Head.keyword?, hname, hg]
  rfl

variable [Located α] (o : LayoutOptions)

theorem fitComments_rebuilt (cs : List Comment) :
    fitComments o ((cs.map Comment.rebuilt).map (·.map text)) = fitComments o (cs.map (·.map text)) := by
  simp only [fitComments, List.forM_eq_forM, List.forM_map]
  rfl

theorem fitHead_rebuilt (h : Head α) :
    fitHead o (h.rebuilt.map id text) = fitHead o (h.map Located.location text) := by
  -- Both have the arguments of the head as data, under marks of their own that no check looks at.
  have hmarks : ∀ f : α → Location, Argument.mapAll f text h.arguments =
      Argument.mapAll f id (Argument.mapAll id text h.arguments) :=
    fun f => (Argument.mapAll_mapAll id f text id h.arguments).symm
  have harguments : Argument.mapAll id text h.rebuilt.arguments =
      Argument.mapAll recorded id (Argument.mapAll id text h.arguments) :=
    (Argument.mapAll_recorded h.arguments).trans (hmarks recorded)
  unfold fitHead Head.map
  dsimp only
  rw [harguments, hmarks, fitArguments_mapAll, fitArguments_mapAll, fitWords_mapAll, fitWords_mapAll]
  change (fitIndent o >>= fun _ => fitComments o ((h.comments.map Comment.rebuilt).map (·.map text)) >>= _) = _
  rw [fitComments_rebuilt]
  rfl

mutual

theorem fitCommand_rebuilt : ∀ c : Command α,
    fitCommand o (c.rebuilt.map id text) = fitCommand o (c.map Located.location text)
  | .simple h => fitHead_rebuilt o h
  | .control h cs trailing _ => by
      rw [Command.rebuilt, Command.map, Command.map, fitCommand, fitCommand, fitHead_rebuilt,
        fitCommands_rebuilt cs, fitComments_rebuilt]

theorem fitCommands_rebuilt : ∀ cs : List (Command α),
    fitCommands o (Command.mapAll id text (Command.rebuiltAll cs)) =
      fitCommands o (Command.mapAll Located.location text cs)
  | [] => rfl
  | c :: cs => by
      rw [Command.rebuiltAll, Command.mapAll, Command.mapAll, fitCommands, fitCommands,
        fitCommand_rebuilt c, fitCommands_rebuilt cs]

end

theorem rebuiltAll_eq_map (cs : List (Command α)) : Command.rebuiltAll cs = cs.map Command.rebuilt := by
  induction cs with
  | nil => rfl
  | cons c cs ih => rw [Command.rebuiltAll, ih, List.map_cons]

theorem lineup_rebuilt (s : Script α) :
    s.rebuilt.lineup = s.lineup.map fun (holds, c) => (holds, c.rebuilt) := by
  refine lineup_of_map (rebuiltAll_eq_map s.commands) fun c => ?_
  have hname : c.rebuilt.head.name = c.head.name := by cases c <;> rfl
  have harguments : c.rebuilt.head.arguments.isEmpty = c.head.arguments.isEmpty := by
    rcases c with ⟨_, as, _, _⟩ | ⟨⟨_, as, _, _⟩, _, _, _⟩ <;> cases as <;> rfl
  rw [Head.isBareRequire, Head.isBareRequire, harguments, Head.keyword?, Head.keyword?, hname]

theorem fitTop_rebuilt (s : Script α) :
    fitTop o s.rebuilt.data.capabilities s.rebuilt.data.lineup s.rebuilt.data.block.trailing =
      fitTop o s.data.capabilities s.data.lineup s.data.block.trailing := by
  have hdata : s.data.lineup = s.lineup.map fun (holds, c) => (holds, c.map Located.location text) :=
    lineup_map Located.location (fun _ => rfl) s
  have hrebuilt : s.rebuilt.data.lineup =
      s.lineup.map fun (holds, c) => (holds, c.rebuilt.map id text) := by
    refine (lineup_map (g := text) id (fun _ => rfl) s.rebuilt).trans ?_
    rw [lineup_rebuilt, List.map_map]
    rfl
  have hcomments : ∀ c : Command α, fitComments o (c.rebuilt.map id text).head.comments =
      fitComments o (c.map Located.location text).head.comments := by
    intro c
    cases c <;> exact fitComments_rebuilt o _
  have htrailing : fitComments o s.rebuilt.data.block.trailing = fitComments o s.data.block.trailing :=
    fitComments_rebuilt o s.block.trailing
  rw [hdata, hrebuilt, fitTop, fitTop, htrailing]
  simp only [List.forM_eq_forM, List.forM_map, hcomments, fitCommand_rebuilt]
  rfl

/-- The text of a tree as data is that of the tree, if the tree fits. -/
theorem dataText_eq (s : Script α) : s.data.dataText o = (do
    s.data.fitFront
    fitTop o s.data.capabilities s.data.lineup s.data.block.trailing
    return s.text o) := by
  have hlineup : s.data.lineup.map (fun (holds, c) => (holds, c.settled)) =
      (s.map Located.location id).lineup := by
    rw [lineup_map Located.location (fun _ => rfl) s, Script.data,
      lineup_map Located.location (fun _ => rfl) s, List.map_map]
    exact List.map_congr_left fun (holds, c) _ =>
      congrArg (Prod.mk holds) (Command.map_map Located.location id text Value.plain c)
  have htext : String.ofList (o.ending.apply (top o (s.data.capabilities.map Value.plain)
      (s.data.lineup.map fun (holds, c) => (holds, c.settled))
      (s.data.block.trailing.map (·.map Value.plain)))) = s.text o := by
    have hcapabilities : s.data.capabilities.map Value.plain = s.capabilities.map id := List.map_map
    have htrailing : s.data.block.trailing.map (·.map Value.plain) = s.block.trailing.map (·.map id) :=
      Comment.mapAll_mapAll text Value.plain s.block.trailing
    rw [hlineup, ← text_congr o (Script.outline_map Located.location (commentTexts o) s), hcapabilities,
      htrailing]
    rfl
  rw [← htext]
  rfl

theorem dataText_rebuilt (s : Script α) : s.rebuilt.data.dataText o = s.data.dataText o := by
  have hfront : s.rebuilt.data.fitFront = s.data.fitFront := by
    unfold Script.fitFront
    rw [show s.rebuilt.data.commands = Command.mapAll id text (Command.rebuiltAll s.commands) from rfl,
      show s.data.commands = Command.mapAll Located.location text s.commands from rfl]
    cases s.commands with
    | nil => rfl
    | cons c cs => cases c <;> rfl
  rw [dataText_eq, dataText_eq, hfront, fitTop_rebuilt, text_congr o (Script.outline_rebuilt _ s)]

end Layout

end MailFilter
